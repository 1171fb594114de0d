import GoInventory.Proofs.Syntax.Shape
import GoInventory.Proofs.TypeText.Outline
import Mathlib.Data.List.Forall2

/-!
# The text of a type spells the type

The canonical text of a type is cut into tokens that spell the type again, with
empty bodies (`printed_of_spells`). The tokens are not those that the type was
read from: parentheses around a single result and trailing commas are gone, and
so are the members of structs and interfaces.

`Printed text P` says that the text is cut into tokens, and that every run of
these tokens has the property `P`. What is printed is put together like the text
is: a token before a run is `Headed`, two runs after each other are `Joined`,
and the rules of the grammar turn such runs into the spelling of a form.
-/

namespace GoInventory

open Lexeme Grammar

/-- The text is cut into tokens, before everything that does not go on with a
word, and every run of these tokens has the property. -/
def Printed (text : List Char) (P : List Token → Prop) : Prop :=
  ∃ toks, Writes text toks ∧ ∀ run : List Token, run.map (·.tok) = toks → P run

/-- The run is a token and a run with the property. -/
def Headed (tok : Tok) (P : List Token → Prop) (run : List Token) : Prop :=
  ∃ t more, run = t :: more ∧ t.tok = tok ∧ P more

/-- The run is one with the first property, and then one with the second. -/
def Joined (P Q : List Token → Prop) (run : List Token) : Prop :=
  ∃ x y, run = x ++ y ∧ P x ∧ Q y

/-- The text starts with a character that is kept apart from a blank or an
operator before it. -/
def Opens (text : List Char) : Prop :=
  ∃ c more, text = c :: more ∧ isBlank c = false ∧ c ≠ '='

/-- How a text opens is told by its first character. -/
theorem Opens.append {a : List Char} (h : Opens a) (b : List Char) :
    Opens (a ++ b) := by
  obtain ⟨c, more, rfl, hblank, hne⟩ := h
  exact ⟨c, more ++ b, rfl, hblank, hne⟩

/-- A name opens a text: it starts neither with a blank nor with an equals sign. -/
theorem opens_of_isIdentStart {c : Char} (h : isIdentStart c = true)
    (more : List Char) : Opens (c :: more) := by
  have hne : ∀ d, isIdentStart d = false → c ≠ d := by
    intro d hd heq
    subst heq
    rw [hd] at h
    cases h
  refine ⟨c, more, rfl, ?_, hne '=' (by decide)⟩
  simp [isBlank, hne ' ' (by decide), hne '\t' (by decide)]

/-- An identifier of a source starts as identifiers do. -/
theorem Tok.Lexed.head {name : String} (h : (Tok.ident name).Lexed) :
    ∃ c more, name.toList = c :: more ∧ isIdentStart c = true := by
  obtain ⟨source, l, hl, htok⟩ := h name rfl
  have hname := eq_of_tok?_ident htok
  obtain ⟨c, rest, cls, n, hcut, rfl⟩ := mem_cut hl
  have hcls : cls = .ident := congrArg Lexeme.cls hname
  rw [hcls] at hcut
  exact ⟨c, rest.take n, (congrArg Lexeme.text hname).symm, (cutFirst_ident hcut).1⟩

namespace Printed

variable {a b : List Char} {P Q : List Token → Prop}

/-- What is true of the tokens may be weakened. -/
theorem mono (h : Printed a P) (hPQ : ∀ run, P run → Q run) : Printed a Q := by
  obtain ⟨toks, hwrites, hrun⟩ := h
  exact ⟨toks, hwrites, fun run heq => hPQ run (hrun run heq)⟩

/-- Nothing is printed as no tokens. -/
theorem nil : Printed [] (· = []) :=
  ⟨[], .nil, fun _ heq => List.map_eq_nil_iff.mp heq⟩

/-- Two texts are cut apart where they were put together, if the second does not
go on with a word of the first. -/
theorem append (ha : Printed a P) (hb : Printed b Q) (hends : EndsWord b) :
    Printed (a ++ b) (Joined P Q) := by
  obtain ⟨as, hwrites, hrun⟩ := ha
  obtain ⟨bs, hwrites', hrun'⟩ := hb
  refine ⟨as ++ bs, hwrites.append hwrites' hends, fun run heq => ?_⟩
  obtain ⟨x, y, rfl, hx, hy⟩ := List.map_eq_append_iff.mp heq
  exact ⟨x, y, rfl, hrun x hx, hrun' y hy⟩

/-- A text that writes one token more than a text that is printed. -/
theorem cons_of_writes {tok : Tok} (hb : Printed b P)
    (hwrites : ∀ bs, Writes b bs → Writes a (tok :: bs)) :
    Printed a (Headed tok P) := by
  obtain ⟨bs, hb, hrun⟩ := hb
  refine ⟨tok :: bs, hwrites bs hb, fun run heq => ?_⟩
  obtain ⟨t, more, rfl, ht, hmore⟩ := List.map_eq_cons_iff.mp heq
  exact ⟨t, more, rfl, ht, hrun more hmore⟩

/-- A keyword is cut off as such, before a text that does not go on with it. -/
theorem keyword (word : Keyword) (hb : Printed b P) (hends : EndsWord b) :
    Printed (word.spelling.toList ++ b) (Headed (.keyword word) P) :=
  cons_of_writes hb fun _ hwrites => (Writes.keyword word).append hwrites hends

theorem ident {name : String} (hname : (Tok.ident name).Lexed) (hb : Printed b P)
    (hends : EndsWord b) : Printed (name.toList ++ b) (Headed (.ident name) P) :=
  cons_of_writes hb fun _ hwrites => (Writes.ident hname).append hwrites hends

theorem operator (o : Operator) (ho : o.standsAlone = true) (hb : Printed b P) :
    Printed (o.spelling ++ b) (Headed (.op o) P) :=
  cons_of_writes hb fun _ hwrites => hwrites.operator ho

/-- A star is a token of its own, unless an equals sign follows it. -/
theorem star (hopens : Opens b) (hb : Printed b P) :
    Printed ('*' :: b) (Headed (.op .star) P) := by
  obtain ⟨d, more, rfl, -, hne⟩ := hopens
  exact cons_of_writes hb fun _ hwrites => hwrites.star hne

/-- A dot is a token of its own before a name. -/
theorem dot {d : Char} (hd : isIdentStart d = true) (hb : Printed (d :: b) P) :
    Printed ('.' :: d :: b) (Headed (.op .dot) P) :=
  cons_of_writes hb fun _ hwrites => hwrites.dot hd

/-- A literal is cut off before the bracket that closes an array length. -/
theorem literal {kind : LiteralKind} {text : String}
    (hlit : (Tok.literal kind text).Lexed) (hb : Printed (']' :: b) P) :
    Printed (text.toList ++ ']' :: b) (Headed (.literal kind text) P) :=
  cons_of_writes hb fun _ hwrites => hwrites.literal hlit

/-- A blank leaves no token. -/
theorem blank (hopens : Opens b) (hb : Printed b P) : Printed (' ' :: b) P := by
  obtain ⟨d, more, rfl, hblank, -⟩ := hopens
  obtain ⟨bs, hwrites, hrun⟩ := hb
  exact ⟨bs, hwrites.blank hblank, hrun⟩

end Printed

/-- The text is printed and can stand behind a blank. -/
def PrintedItem (P : List Token → Prop) (text : String) : Prop :=
  Opens text.toList ∧ Printed text.toList P

/-- What is true of the tokens of an item may be weakened. -/
theorem PrintedItem.mono {P Q : List Token → Prop} {text : String}
    (h : PrintedItem P text) (hPQ : ∀ run, P run → Q run) : PrintedItem Q text :=
  ⟨h.1, h.2.mono hPQ⟩

/-! ## Lists -/

section Lists

variable {α : Type} {item : α → List Token → Prop}

/-- A list of texts is its first one, a comma, a blank and the rest. -/
theorem commaJoin_cons_cons (first next : String) (rest : List String) :
    (commaJoin (first :: next :: rest)).toList
      = first.toList ++ (Operator.comma.spelling ++ ' '
        :: (commaJoin (next :: rest)).toList) := by
  rw [commaJoin]
  · simp [Operator.spelling]
  · simp

/-- A list is printed with a comma behind each item but the last. -/
theorem printed_separated {texts : List String} {as : List α}
    (h : List.Forall₂ (fun a text => PrintedItem (item a) text) as texts)
      (hne : as ≠ []) :
    PrintedItem (Separated item .comma as) (commaJoin texts) := by
  induction h with
  | nil => exact absurd rfl hne
  | cons htext hrest ih =>
    cases hrest with
    | nil => exact htext.mono fun run hrun => .one hrun
    | cons hnext hmore =>
      obtain ⟨hopens, hprinted⟩ := ih (List.cons_ne_nil _ _)
      unfold PrintedItem
      rw [commaJoin_cons_cons]
      refine ⟨htext.1.append _, ?_⟩
      refine (htext.2.append (.operator .comma rfl (hprinted.blank hopens))
        (endsWord_cons (by decide) _)).mono ?_
      intro run hrun
      obtain ⟨x, y, rfl, hx, sep, more, rfl, hsep, hmore⟩ := hrun
      exact .cons hx hsep hmore

/-- A list of items with separators between them may be followed by the operator
that closes it. -/
theorem Grammar.Separated.listed_append {separator close : Operator} {as : List α}
    {run : List Token} {t : Token} (h : Separated item separator as run)
    (ht : t.tok = .op close) : Listed item separator close as (run ++ [t]) := by
  induction h with
  | one ha => exact .last ha ht
  | cons ha hsep _ ih =>
    rw [List.append_assoc]
    exact .cons ha hsep ih

/-- A list in brackets is printed as a list that the grammar allows, without a
comma at its end. -/
theorem printed_listed {texts : List String} {as : List α} {b : List Char}
    {P : List Token → Prop}
    (close : Operator) (hclose : close.standsAlone = true)
      (hends : EndsWord (close.spelling ++ b))
    (h : List.Forall₂ (fun a text => PrintedItem (item a) text) as texts)
      (hb : Printed b P) :
    Printed ((commaJoin texts).toList ++ (close.spelling ++ b))
      (Joined (Listed item .comma close as) P) := by
  cases h with
  | nil =>
    refine (Printed.operator close hclose hb).mono ?_
    intro run hrun
    obtain ⟨t, more, rfl, ht, hmore⟩ := hrun
    exact ⟨[t], more, rfl, .none ht, hmore⟩
  | cons htext hrest =>
    have hitems := printed_separated (.cons htext hrest) (List.cons_ne_nil _ _)
    refine (hitems.2.append (.operator close hclose hb) hends).mono ?_
    intro run hrun
    obtain ⟨x, y, rfl, hx, t, more, rfl, ht, hmore⟩ := hrun
    exact ⟨x ++ [t], more, by simp, hx.listed_append ht, hmore⟩

end Lists

/-! ## Names and lengths -/

/-- An identifier of a source has the text of a token. -/
theorem Grammar.IsIdent.lexed {n : Ident} {t : Token} (h : IsIdent .lexed n t) :
    (Tok.ident n.name).Lexed := by
  have hlexed := h.2 t List.mem_cons_self
  rwa [h.1] at hlexed

/-- An identifier is printed as itself. -/
theorem printed_ident {name : String} (h : (Tok.ident name).Lexed) :
    PrintedItem (Headed (.ident name) (· = [])) name := by
  obtain ⟨c, more, hname, hc⟩ := h.head
  have hword := Printed.ident h .nil fun _ hd => by cases hd
  rw [List.append_nil] at hword
  exact ⟨by rw [hname]; exact opens_of_isIdentStart hc more, hword⟩

/-- A qualified name is printed as three tokens. -/
theorem printed_qualified {pkg name : String} (hpkg : (Tok.ident pkg).Lexed)
    (hname : (Tok.ident name).Lexed) :
    PrintedItem (Headed (.ident pkg)
      (Headed (.op .dot) (Headed (.ident name) (· = []))))
      (pkg ++ "." ++ name) := by
  obtain ⟨d, more, hd, hstart⟩ := hname.head
  have htext : (pkg ++ "." ++ name).toList = pkg.toList ++ '.' :: d :: more := by
    simp [hd]
  have hsel := (printed_ident hname).2
  rw [hd] at hsel
  unfold PrintedItem
  rw [htext]
  exact ⟨(printed_ident hpkg).1.append _,
    .ident hpkg (.dot hstart hsel) (endsWord_cons (by decide) _)⟩

/-- Names are printed as they are spelled. -/
theorem printed_name {n : TypeName} {run : List Token} {e : Ending}
    (h : Name .lexed n run e) :
    PrintedItem (fun run => ∃ e, Name .anywhere n run e) n.text := by
  cases h with
  | plain ht =>
    refine (printed_ident ht.lexed).mono ?_
    intro run hrun
    obtain ⟨t, more, rfl, ht, rfl⟩ := hrun
    exact ⟨_, .plain ⟨ht, trivial⟩⟩
  | qualified ht _ hu _ =>
    refine (printed_qualified ht.lexed hu.lexed).mono ?_
    intro run hrun
    obtain ⟨t, _, rfl, ht, dot, _, rfl, hdot, u, _, rfl, hu, rfl⟩ := hrun
    exact ⟨_, .qualified ⟨ht, trivial⟩ hdot ⟨hu, trivial⟩ trivial⟩

theorem printed_names {names : List Ident} {run : List Token}
    (h : Separated (IdentRun .lexed) .comma names run) (hne : names ≠ []) :
    PrintedItem (Separated (IdentRun .anywhere) .comma names)
      (commaJoin (names.map (·.name))) := by
  have hitems :
    List.Forall₂ (fun n text => PrintedItem (IdentRun .anywhere n) text) names
      (names.map (·.name)) := by
    refine List.forall₂_map_right_iff.mpr (List.forall₂_same.mpr fun n hn => ?_)
    obtain ⟨part, t, -, ht⟩ := h.item_of_mem hn
    refine (printed_ident ht.lexed).mono ?_
    intro run hrun
    obtain ⟨u, more, rfl, hu, rfl⟩ := hrun
    exact ⟨u, rfl, hu, trivial⟩
  exact printed_separated hitems hne

/-- The length of an array, before the bracket that closes it. -/
theorem printed_bound {length : ArrayLength} {lengthRun : List Token} {whole : Span}
    {text : String} {b : List Char} {P : List Token → Prop}
    (h : Bound .lexed length lengthRun) (hr : length.render whole = .ok text)
    (hb : Printed (']' :: b) P) :
    Printed (text.toList ++ ']' :: b) (Joined (Bound .anywhere length) P) := by
  have hends : EndsWord (']' :: b) := endsWord_cons (by decide) _
  cases h with
  | ellipsis => cases hr
  | expr _ _ hlen =>
    generalize _ :: _ = lengthRun at hlen
    cases hlen with
    | ident ht =>
      cases hr
      refine ((printed_ident ht.lexed).2.append hb hends).mono ?_
      intro run hrun
      obtain ⟨x, y, rfl, ⟨t, _, rfl, ht, rfl⟩, hy⟩ := hrun
      refine ⟨[t], y, rfl, .expr (by rw [ht]; simp) ?_ (.ident ⟨ht, trivial⟩), hy⟩
      exact balanced_cons_of_eq ht rfl rfl .nil
    | selector ht _ hu _ =>
      cases hr
      refine ((printed_qualified ht.lexed hu.lexed).2.append hb hends).mono ?_
      intro run hrun
      obtain ⟨x, y, rfl, ⟨t, _, rfl, ht, dot, _, rfl, hdot, u, _, rfl, hu, rfl⟩,
        hy⟩ := hrun
      refine ⟨[t, dot, u], y, rfl, .expr (by rw [ht]; simp) ?_
        (.selector ⟨ht, trivial⟩ hdot ⟨hu, trivial⟩ trivial), hy⟩
      exact balanced_cons_of_eq ht rfl rfl
        (balanced_cons_of_eq hdot rfl rfl (balanced_cons_of_eq hu rfl rfl .nil))
    | literal ht hlexed =>
      cases hr
      have hlit := hlexed _ List.mem_cons_self
      rw [ht] at hlit
      refine (Printed.literal hlit hb).mono ?_
      intro run hrun
      obtain ⟨t, more, rfl, ht, hmore⟩ := hrun
      refine ⟨[t], more, rfl,
        .expr (by rw [ht]; simp) ?_ (.literal ht trivial), hmore⟩
      exact balanced_cons_of_eq ht rfl rfl .nil
    | other => cases hr

/-! ## The forms of type -/

/-- A computation that succeeds does so in all of its steps. -/
theorem except_bind_eq_ok {ε α β : Type} {x : Except ε α} {f : α → Except ε β} {b : β}
    (h : x >>= f = .ok b) : ∃ a, x = .ok a ∧ f a = .ok b := by
  cases x with
  | error e => cases h
  | ok a => exact ⟨a, rfl, h⟩

/-- The text, read again, spells the type without its bodies. -/
def PrintedType (t : TypeExpr) (text : String) : Prop :=
  PrintedItem (Inner (Spells .anywhere) t.withoutBodies) text

/-- The text that the type has, if it has one, is printed. -/
def RenderPrinted (t : TypeExpr) : Prop :=
  ∀ ⦃text : String⦄, t.render = .ok text → PrintedType t text

/-- What holds of the text of each type holds of the texts. -/
theorem forall₂_of_renderTypes {J : TypeExpr → List Token → Prop}
    {types : List TypeExpr} {texts : List String} (h : renderTypes types = .ok texts)
    (hitem : ∀ t ∈ types, ∀ text, t.render = .ok text →
      PrintedItem (J t.withoutBodies) text) :
    List.Forall₂ (fun t text => PrintedItem (J t) text)
      (types.map TypeExpr.withoutBodies) texts := by
  induction types generalizing texts with
  | nil =>
    cases h
    exact .nil
  | cons t rest ih =>
    rw [renderTypes] at h
    obtain ⟨text, ht, h⟩ := except_bind_eq_ok h
    obtain ⟨more, hrest, h⟩ := except_bind_eq_ok h
    cases h
    exact .cons (hitem t List.mem_cons_self text ht)
      (ih hrest fun u hu => hitem u (List.mem_cons_of_mem t hu))

section Forms

variable {s : Span} {elem : TypeExpr} {text : String}

/-- Type arguments are printed in brackets, without a comma at the end. -/
theorem printed_applied {base : TypeName} {args : List TypeExpr} {run : List Token}
    {e : Ending} (hbase : Name .lexed base run e) (hne : args ≠ [])
    (hargs : ∀ t ∈ args, RenderPrinted t) : RenderPrinted (.applied s base args) := by
  intro text hr
  rw [TypeExpr.render] at hr
  obtain ⟨texts, htexts, heq⟩ := except_bind_eq_ok hr
  cases heq
  have hitems := forall₂_of_renderTypes (J := Inner (Spells .anywhere)) htexts
    fun t ht text htext => hargs t ht htext
  have htext : (base.text ++ "[" ++ commaJoin texts ++ "]").toList
      = base.text.toList ++ (Operator.openBracket.spelling ++
        ((commaJoin texts).toList ++ (Operator.closeBracket.spelling ++ []))) := by
    simp [Operator.spelling]
  have hlist :=
    printed_listed .closeBracket rfl (endsWord_cons (by decide) _) hitems .nil
  unfold PrintedType PrintedItem
  rw [htext, TypeExpr.withoutBodies, withoutBodiesTypes_eq]
  refine ⟨(printed_name hbase).1.append _, ?_⟩
  refine ((printed_name hbase).2.append (.operator .openBracket rfl hlist)
    (endsWord_cons (by decide) _)).mono ?_
  intro run hrun
  obtain ⟨x, _, rfl, ⟨e, hx⟩, lb, _, rfl, hlb, more, _, rfl, hmore, rfl⟩ := hrun
  rw [List.append_nil]
  exact ⟨_, spells_iff.mpr (.applied hx hlb (by simpa using hne) hmore trivial)⟩

theorem printed_pointer (h : RenderPrinted elem) :
    RenderPrinted (.pointer s elem) := by
  intro text hr
  rw [TypeExpr.render] at hr
  obtain ⟨elemText, helem, heq⟩ := except_bind_eq_ok hr
  cases heq
  have hprinted := h helem
  have htext : ("*" ++ elemText).toList = '*' :: elemText.toList := by simp
  unfold PrintedType PrintedItem
  rw [htext, TypeExpr.withoutBodies]
  refine ⟨⟨_, _, rfl, rfl, by decide⟩, (hprinted.2.star hprinted.1).mono ?_⟩
  intro run hrun
  obtain ⟨star, more, rfl, hstar, e, hmore⟩ := hrun
  exact ⟨e, spells_iff.mpr (.pointer hstar hmore trivial)⟩

/-- A slice is printed with its brackets next to each other. -/
theorem printed_slice (h : RenderPrinted elem) : RenderPrinted (.slice s elem) := by
  intro text hr
  rw [TypeExpr.render] at hr
  obtain ⟨elemText, helem, heq⟩ := except_bind_eq_ok hr
  cases heq
  have hprinted := h helem
  have htext : ("[]" ++ elemText).toList
      = Operator.openBracket.spelling
        ++ (Operator.closeBracket.spelling ++ elemText.toList) := by
    simp [Operator.spelling]
  unfold PrintedType PrintedItem
  rw [htext, TypeExpr.withoutBodies]
  refine ⟨⟨_, _, rfl, rfl, by decide⟩, ?_⟩
  refine (Printed.operator .openBracket rfl
    (.operator .closeBracket rfl hprinted.2)).mono ?_
  intro run hrun
  obtain ⟨lb, _, rfl, hlb, rb, more, rfl, hrb, e, hmore⟩ := hrun
  exact ⟨e, spells_iff.mpr (.slice hlb hrb hmore trivial)⟩

/-- A length is printed as it was written, if it is one that can be printed. -/
theorem printed_array {length : ArrayLength} {lengthRun : List Token}
    (hlength : Bound .lexed length lengthRun) (h : RenderPrinted elem) :
    RenderPrinted (.array s length elem) := by
  intro text hr
  rw [TypeExpr.render] at hr
  obtain ⟨lengthText, hlengthText, hr⟩ := except_bind_eq_ok hr
  obtain ⟨elemText, helem, heq⟩ := except_bind_eq_ok hr
  cases heq
  have htext : ("[" ++ lengthText ++ "]" ++ elemText).toList
      = Operator.openBracket.spelling
        ++ (lengthText.toList ++ ']' :: elemText.toList) := by
    simp [Operator.spelling]
  have hbound :=
    printed_bound hlength hlengthText (.operator .closeBracket rfl (h helem).2)
  unfold PrintedType PrintedItem
  rw [htext, TypeExpr.withoutBodies]
  refine ⟨⟨_, _, rfl, rfl, by decide⟩,
    (Printed.operator .openBracket rfl hbound).mono ?_⟩
  intro run hrun
  obtain ⟨lb, _, rfl, hlb, x, _, rfl, hx, rb, more, rfl, hrb, e, hmore⟩ := hrun
  exact ⟨e, spells_iff.mpr (.array hlb hx hrb hmore trivial)⟩

/-- The key of a map is printed between brackets, the value behind them. -/
theorem printed_map {key value : TypeExpr} (hkey : RenderPrinted key)
    (hvalue : RenderPrinted value) : RenderPrinted (.map s key value) := by
  intro text hr
  rw [TypeExpr.render] at hr
  obtain ⟨keyText, hkeyText, hr⟩ := except_bind_eq_ok hr
  obtain ⟨valueText, hvalueText, heq⟩ := except_bind_eq_ok hr
  cases heq
  have htext : ("map[" ++ keyText ++ "]" ++ valueText).toList
      = Keyword.map.spelling.toList ++ (Operator.openBracket.spelling ++
        (keyText.toList ++ (Operator.closeBracket.spelling
          ++ valueText.toList))) := by
    simp [Operator.spelling, Keyword.spelling]
  have hinner :=
    (hkey hkeyText).2.append (.operator .closeBracket rfl (hvalue hvalueText).2)
    (endsWord_cons (by decide) _)
  unfold PrintedType PrintedItem
  rw [htext, TypeExpr.withoutBodies]
  refine ⟨⟨_, _, rfl, rfl, by decide⟩, ?_⟩
  refine (Printed.keyword .map (.operator .openBracket rfl hinner)
    (endsWord_cons (by decide) _)).mono ?_
  intro run hrun
  obtain ⟨kw, _, rfl, hkw, lb, _, rfl, hlb, x, _, rfl, hx, rb, more, rfl, hrb, e,
    hmore⟩ := hrun
  exact ⟨e, spells_iff.mpr (.map hkw hlb hx hrb hmore trivial)⟩

/-- What announces a type does not depend on the bodies in it. -/
theorem announcedBy_withoutBodies {t : TypeExpr} {tok : Tok} :
    AnnouncedBy t.withoutBodies tok ↔ AnnouncedBy t tok := by
  cases t with
  | chan s dir elem => cases dir <;> exact Iff.rfl
  | func s sig => exact Iff.rfl
  | _ => exact Iff.rfl

/-- A channel whose element does not start with an arrow is not taken for one
with a direction. -/
theorem printed_chan {dir : ChanDir} (h : RenderPrinted elem)
    (harrow : dir = .both → ¬ AnnouncedBy elem (.op .arrow)) :
    RenderPrinted (.chan s dir elem) := by
  intro text hr
  rw [TypeExpr.render] at hr
  obtain ⟨elemText, helem, heq⟩ := except_bind_eq_ok hr
  cases heq
  have hprinted := h helem
  have hblank : EndsWord (' ' :: elemText.toList) := endsWord_cons (by decide) _
  unfold PrintedType PrintedItem
  rw [TypeExpr.withoutBodies]
  cases dir with
  | both =>
    have htext : (ChanDir.both.text ++ elemText).toList
        = Keyword.chan.spelling.toList ++ ' ' :: elemText.toList := by
      simp [ChanDir.text, Keyword.spelling]
    rw [htext]
    refine ⟨⟨_, _, rfl, rfl, by decide⟩,
      (Printed.keyword .chan (hprinted.2.blank hprinted.1) hblank).mono ?_⟩
    intro run hrun
    -- whatever the tokens of the element are, the first one announces it
    -- and is no arrow
    obtain ⟨kw, more, rfl, hkw, e, hmore⟩ := hrun
    obtain ⟨first, rest, rfl, hfirst⟩ := (spells_iff.mp hmore).announced
    refine ⟨e, spells_iff.mpr (.chan hkw (fun heq => ?_) hmore trivial)⟩
    rw [heq] at hfirst
    exact harrow rfl (announcedBy_withoutBodies.mp hfirst)
  | send =>
    have htext : (ChanDir.send.text ++ elemText).toList
        = Keyword.chan.spelling.toList
          ++ (Operator.arrow.spelling ++ ' ' :: elemText.toList) := by
      simp [ChanDir.text, Keyword.spelling, Operator.spelling]
    rw [htext]
    refine ⟨⟨_, _, rfl, rfl, by decide⟩, ?_⟩
    refine (Printed.keyword .chan (.operator .arrow rfl (hprinted.2.blank hprinted.1))
      (endsWord_cons (by decide) _)).mono ?_
    intro run hrun
    obtain ⟨kw, _, rfl, hkw, arrow, more, rfl, harrow, e, hmore⟩ := hrun
    exact ⟨e, spells_iff.mpr (.send hkw harrow hmore trivial)⟩
  | receive =>
    have htext : (ChanDir.receive.text ++ elemText).toList
        = Operator.arrow.spelling
          ++ (Keyword.chan.spelling.toList ++ ' ' :: elemText.toList) := by
      simp [ChanDir.text, Keyword.spelling, Operator.spelling]
    rw [htext]
    refine ⟨⟨_, _, rfl, rfl, by decide⟩, ?_⟩
    refine (Printed.operator .arrow rfl
      (.keyword .chan (hprinted.2.blank hprinted.1) hblank)).mono ?_
    intro run hrun
    obtain ⟨arrow, _, rfl, harrow, kw, more, rfl, hkw, e, hmore⟩ := hrun
    exact ⟨e, spells_iff.mpr (.receive harrow hkw hmore trivial)⟩

/-- A keyword and an empty body. -/
theorem printed_emptyBody (word : Keyword) :
    Printed (word.spelling.toList
      ++ (Operator.openBrace.spelling ++ (Operator.closeBrace.spelling ++ [])))
      (Headed (.keyword word)
        (Headed (.op .openBrace) (Headed (.op .closeBrace) (· = [])))) :=
  .keyword word (.operator .openBrace rfl (.operator .closeBrace rfl .nil))
    (endsWord_cons (by decide) _)

/-- A struct is printed without its members. -/
theorem printed_struct {fields : List (Field TypeExpr)} :
    RenderPrinted (.struct s fields) := by
  intro text hr
  cases hr
  refine ⟨⟨_, _, rfl, rfl, by decide⟩, (printed_emptyBody .struct).mono ?_⟩
  intro run hrun
  obtain ⟨kw, _, rfl, hkw, lb, _, rfl, hlb, rb, _, rfl, hrb, rfl⟩ := hrun
  exact ⟨_, spells_iff.mpr (.struct hkw hlb (.none hrb) trivial)⟩

/-- An interface is printed without its elements. -/
theorem printed_interface {elems : List (Field TypeExpr)} :
    RenderPrinted (.interface s elems) := by
  intro text hr
  cases hr
  refine ⟨⟨_, _, rfl, rfl, by decide⟩, (printed_emptyBody .interface).mono ?_⟩
  intro run hrun
  obtain ⟨kw, _, rfl, hkw, lb, _, rfl, hlb, rb, _, rfl, hrb, rfl⟩ := hrun
  exact ⟨_, spells_iff.mpr (.interface hkw hlb (.none hrb) trivial)⟩

end Forms

/-! ## Parameters and results -/

/-- The type is printed if the tokens of a source spell it. -/
def Prints (t : TypeExpr) : Prop :=
  ∀ ⦃run : List Token⦄ ⦃e : Ending⦄, Spells .lexed t run e → t.DotsInParams →
    RenderPrinted t

/-- The type is printed, and so are its children: the type of parameters may
stand behind dots. -/
def PrintsDeep (t : TypeExpr) : Prop :=
  Prints t ∧ ∀ c ∈ t.children, Prints c

/-- What holds of the text of each field holds of the texts. -/
theorem forall₂_of_renderFields {J : Field TypeExpr → List Token → Prop}
    {fields : List (Field TypeExpr)} {texts : List String}
    (h : renderFields fields = .ok texts)
    (hitem : ∀ f ∈ fields, ∀ text, f.type.render = .ok text →
      PrintedItem (J f.withoutBodies) (namedText f.names text)) :
    List.Forall₂ (fun f text => PrintedItem (J f) text)
      (fields.map Field.withoutBodies) texts := by
  induction fields generalizing texts with
  | nil =>
    cases h
    exact .nil
  | cons f rest ih =>
    rw [renderFields_cons] at h
    obtain ⟨text, ht, h⟩ := except_bind_eq_ok h
    obtain ⟨more, hrest, h⟩ := except_bind_eq_ok h
    cases h
    exact .cons (hitem f List.mem_cons_self text ht)
      (ih hrest fun g hg => hitem g (List.mem_cons_of_mem f hg))

/-- The ellipsis of a variadic parameter is printed before its type. -/
theorem printed_paramType {t : TypeExpr} {run : List Token} {text : String}
    (ht : PrintsDeep t) (h : ParamType .lexed (Spells .lexed) t run)
    (hdots : t.DotsInParams) (hr : t.render = .ok text) :
    PrintedItem (ParamType .anywhere (Spells .anywhere) t.withoutBodies) text := by
  cases h with
  | plain htype =>
    obtain ⟨e, hspells⟩ := htype
    exact (ht.1 hspells hdots hr).mono fun run hrun => .plain hrun
  | @variadic s elem dots run _ htype _ =>
    obtain ⟨e, hspells⟩ := htype
    have hmem : elem ∈ (TypeExpr.variadic s elem).openChildren :=
      List.mem_singleton.mpr rfl
    rw [TypeExpr.render] at hr
    obtain ⟨elemText, helemText, heq⟩ := except_bind_eq_ok hr
    cases heq
    have helem :=
      ht.2 elem hmem hspells ((TypeExpr.dotsInParams_iff.mp hdots).2 elem hmem)
      helemText
    have htext : ("..." ++ elemText).toList
        = Operator.ellipsis.spelling ++ elemText.toList := by
      simp [Operator.spelling]
    unfold PrintedItem
    rw [htext, TypeExpr.withoutBodies]
    refine ⟨⟨_, _, rfl, rfl, by decide⟩,
      (Printed.operator .ellipsis rfl helem.2).mono ?_⟩
    intro run hrun
    obtain ⟨dots, more, rfl, hdots, hmore⟩ := hrun
    exact .variadic hdots hmore trivial

/-- A parameter without a name. -/
theorem printed_unnamedParam {f : Field TypeExpr} {run : List Token} {text : String}
    (h : UnnamedParam .lexed (Spells .lexed) f run) (ht : PrintsDeep f.type)
    (hdots : f.type.DotsInParams) (hr : f.type.render = .ok text) :
    PrintedItem (UnnamedParam .anywhere (Spells .anywhere) f.withoutBodies)
      (namedText f.names text) := by
  cases h with
  | mk htype _ =>
    exact (printed_paramType ht htype hdots hr).mono fun run hrun => .mk hrun trivial

/-- Parameters of one type, with their names before it. -/
theorem printed_namedParams {f : Field TypeExpr} {run : List Token} {text : String}
    (h : NamedParams .lexed (Spells .lexed) f run) (ht : PrintsDeep f.type)
    (hdots : f.type.DotsInParams) (hr : f.type.render = .ok text) :
    PrintedItem (NamedParams .anywhere (Spells .anywhere) f.withoutBodies)
      (namedText f.names text) := by
  cases h with
  | @mk names t s nameRun run hnames htype _ =>
    have hne := hnames.ne_nil
    have hname := printed_names hnames hne
    have htyped := printed_paramType ht htype hdots hr
    have htext : (namedText names text).toList
        = (commaJoin (names.map (·.name))).toList ++ ' ' :: text.toList := by
      unfold namedText
      rw [if_neg (by simpa using hne)]
      simp
    unfold PrintedItem
    rw [htext]
    refine ⟨hname.1.append _, ?_⟩
    refine (hname.2.append (htyped.2.blank htyped.1)
      (endsWord_cons (by decide) _)).mono ?_
    intro run hrun
    obtain ⟨x, y, rfl, hx, hy⟩ := hrun
    exact .mk hx hy trivial

section Fields

variable {fields : List (Field TypeExpr)} {run : List Token} {texts : List String}

/-- Parameters with their parentheses. -/
theorem printed_params {b : List Char} {P : List Token → Prop}
    (h : Params .lexed (Spells .lexed) fields run)
    (hprints : ∀ f ∈ fields, PrintsDeep f.type)
    (hdots : ∀ f ∈ fields, f.type.DotsInParams) (hr : renderFields fields = .ok texts)
    (hb : Printed b P) :
    Printed (Operator.openParen.spelling ++
        ((commaJoin texts).toList ++ (Operator.closeParen.spelling ++ b)))
      (Joined (Params .anywhere (Spells .anywhere) (fields.map Field.withoutBodies))
        P) := by
  have hends : EndsWord (Operator.closeParen.spelling ++ b) :=
    endsWord_cons (by decide) _
  cases h with
  | unnamed _ hlist =>
    have hitems :=
      forall₂_of_renderFields (J := UnnamedParam .anywhere (Spells .anywhere)) hr
      fun f hf text ht => by
        obtain ⟨part, hpart⟩ := hlist.item_of_mem hf
        exact printed_unnamedParam hpart (hprints f hf) (hdots f hf) ht
    refine (Printed.operator .openParen rfl
      (printed_listed .closeParen rfl hends hitems hb)).mono ?_
    intro run hrun
    obtain ⟨lp, _, rfl, hlp, x, y, rfl, hx, hy⟩ := hrun
    exact ⟨lp :: x, y, rfl, .unnamed hlp hx, hy⟩
  | named _ hlist =>
    have hitems :=
      forall₂_of_renderFields (J := NamedParams .anywhere (Spells .anywhere)) hr
      fun f hf text ht => by
        obtain ⟨part, hpart⟩ := hlist.item_of_mem hf
        exact printed_namedParams hpart (hprints f hf) (hdots f hf) ht
    refine (Printed.operator .openParen rfl
      (printed_listed .closeParen rfl hends hitems hb)).mono ?_
    intro run hrun
    obtain ⟨lp, _, rfl, hlp, x, y, rfl, hx, hy⟩ := hrun
    exact ⟨lp :: x, y, rfl, .named hlp hx, hy⟩

/-- A single result without a name is spelled as a type, with
parentheses or without. -/
theorem spells_of_bareResult {f : Field TypeExpr} {e : Ending}
    (h : Results .lexed (Spells .lexed) [f] run e) (hnames : f.names = [])
    (hdots : ∀ s elem, f.type ≠ .variadic s elem) :
    f.tag = none ∧ ∃ part e', Spells .lexed f.type part e' := by
  have hparam : ∀ {part}, ParamType .lexed (Spells .lexed) f.type part →
      ∃ part e', Spells .lexed f.type part e' := by
    intro part hpart
    generalize ht : f.type = t at hpart
    cases hpart with
    | plain htype =>
      obtain ⟨e', htype⟩ := htype
      exact ⟨_, e', htype⟩
    | variadic => exact absurd ht (hdots _ _)
  cases h with
  | bare _ htype _ => exact ⟨rfl, _, _, htype⟩
  | listed hparams =>
    cases hparams with
    | unnamed _ hlist =>
      obtain ⟨part, hpart⟩ := hlist.item_of_mem (List.mem_singleton.mpr rfl)
      cases hpart with
      | mk htype _ => exact ⟨rfl, hparam htype⟩
    | named _ hlist =>
      obtain ⟨part, hpart⟩ := hlist.item_of_mem (List.mem_singleton.mpr rfl)
      cases hpart with
      | mk hseparated _ _ => exact absurd hnames hseparated.ne_nil

/-- A type that has a text does not start with a parenthesis. -/
theorem not_paren_of_render {t : TypeExpr} {text : String} (h : t.render = .ok text) :
    ¬ AnnouncedBy t (.op .openParen) := by
  intro hparen
  obtain ⟨s, elem, rfl⟩ := eq_of_announcedBy_openParen hparen
  cases h

/-- A single type behind the parameters. It does not start with a parenthesis,
so it is not taken for a list of results. -/
theorem printed_bareResult {t : TypeExpr} {text : String} {s : Span}
    (h : PrintedType t text) (hr : t.render = .ok text) :
    Printed (' ' :: text.toList) fun run =>
      ∃ e, Results .anywhere (Spells .anywhere)
        [⟨[], t.withoutBodies, none, s⟩] run e := by
  refine (h.2.blank h.1).mono ?_
  intro run hrun
  obtain ⟨e, hrun⟩ := hrun
  obtain ⟨first, more, rfl, hfirst⟩ := (spells_iff.mp hrun).announced
  refine ⟨e, .bare (fun heq => ?_) hrun trivial⟩
  rw [heq] at hfirst
  exact not_paren_of_render hr (announcedBy_withoutBodies.mp hfirst)

/-- What follows the parameters. -/
theorem printed_results {results : List (Field TypeExpr)} {e : Ending}
    (h : Results .lexed (Spells .lexed) results run e)
    (hprints : ∀ f ∈ results, PrintsDeep f.type)
    (hdots : ∀ f ∈ results, f.type.DotsInParams)
    (hplain : ∀ f ∈ results, ∀ s elem, f.type ≠ .variadic s elem)
    (hr : renderFields results = .ok texts) :
    EndsWord (resultText results texts).toList ∧
    Printed (resultText results texts).toList fun run =>
      ∃ e, Results .anywhere (Spells .anywhere) (results.map Field.withoutBodies)
        run e := by
  unfold resultText
  cases hempty : results.isEmpty with
  | true =>
    rw [List.isEmpty_iff.mp hempty]
    refine ⟨fun _ hd => (by cases hd), Printed.nil.mono ?_⟩
    intro run heq
    subst heq
    exact ⟨_, .none⟩
  | false =>
    -- the text has parentheses or not, whatever the source had
    cases hbare : isBareResult results with
    | true =>
      obtain ⟨f, rfl, hnames⟩ : ∃ f, results = [f] ∧ f.names = [] := by
        match results, hbare with
        | [f], hbare => exact ⟨f, rfl, List.isEmpty_iff.mp hbare⟩
      obtain ⟨names, t, tag, s⟩ := f
      subst hnames
      obtain ⟨rfl, part, e', hspells⟩ :=
        spells_of_bareResult h rfl (hplain _ List.mem_cons_self)
      rw [renderFields_cons] at hr
      obtain ⟨text, ht, hr⟩ := except_bind_eq_ok hr
      cases hr
      have hprinted :=
        (hprints _ List.mem_cons_self).1 hspells (hdots _ List.mem_cons_self) ht
      have htext : (" " ++ commaJoin [namedText [] text]).toList
          = ' ' :: text.toList := by
        simp [commaJoin, namedText]
      simp only [Bool.false_eq_true, if_false, if_true]
      rw [htext]
      exact ⟨endsWord_cons (by decide) _, printed_bareResult hprinted ht⟩
    | false =>
      have htext : (" (" ++ commaJoin texts ++ ")").toList
          = ' ' :: (Operator.openParen.spelling ++
            ((commaJoin texts).toList ++ (Operator.closeParen.spelling ++ []))) := by
        simp [Operator.spelling]
      simp only [Bool.false_eq_true, if_false]
      rw [htext]
      refine ⟨endsWord_cons (by decide) _, ?_⟩
      cases h with
      | none => cases hempty
      | bare => cases hbare
      | listed hparams =>
        refine (Printed.blank ⟨_, _, rfl, rfl, by decide⟩
          (printed_params hparams hprints hdots hr .nil)).mono ?_
        intro run hrun
        obtain ⟨x, _, rfl, hx, rfl⟩ := hrun
        rw [List.append_nil]
        exact ⟨_, .listed hx⟩

/-- **A function type is printed as it is spelled**, up to parentheses around a
single result. -/
theorem printed_func {s : Span} {sig : Signature TypeExpr} {e : Ending}
    {text : String} (h : Sig .lexed (Spells .lexed) sig run e)
    (hprints : ∀ c ∈ (TypeExpr.func s sig).children, PrintsDeep c)
    (hdots : (TypeExpr.func s sig).DotsInParams)
    (hr : (TypeExpr.func s sig).render = .ok text) :
    PrintedType (.func s sig) text := by
  obtain ⟨hplain, hopen⟩ := TypeExpr.dotsInParams_iff.mp hdots
  cases h with
  | @mk params results s' paramRun resultRun e hparams hresults _ =>
    have hleft : ∀ f ∈ params,
        f.type ∈ (TypeExpr.func s ⟨params, results, s'⟩).children :=
      fun f hf => List.mem_append_left _ (List.mem_map_of_mem hf)
    have hright : ∀ f ∈ results,
        f.type ∈ (TypeExpr.func s ⟨params, results, s'⟩).children :=
      fun f hf => List.mem_append_right _ (List.mem_map_of_mem hf)
    rw [TypeExpr.render] at hr
    obtain ⟨paramTexts, hparamTexts, hr⟩ := except_bind_eq_ok hr
    obtain ⟨resultTexts, hresultTexts, hr⟩ := except_bind_eq_ok hr
    cases hr
    have htext :
      ("func(" ++ commaJoin paramTexts ++ ")"
      ++ resultText results resultTexts).toList
        = Keyword.func.spelling.toList ++ (Operator.openParen.spelling ++
          ((commaJoin paramTexts).toList ++ (Operator.closeParen.spelling ++
            (resultText results resultTexts).toList))) := by
      simp [Keyword.spelling, Operator.spelling]
    obtain ⟨-, hresult⟩ :=
      printed_results hresults (fun f hf => hprints _ (hright f hf))
      (fun f hf => hopen _ (hright f hf))
        (fun f hf => hplain _ (List.mem_map_of_mem hf)) hresultTexts
    have hparam := printed_params hparams (fun f hf => hprints _ (hleft f hf))
      (fun f hf => hopen _ (hleft f hf)) hparamTexts hresult
    unfold PrintedType PrintedItem
    rw [htext, TypeExpr.withoutBodies, withoutBodiesFields_eq, withoutBodiesFields_eq]
    refine ⟨⟨_, _, rfl, rfl, by decide⟩,
      (Printed.keyword .func hparam (endsWord_cons (by decide) _)).mono ?_⟩
    intro run hrun
    obtain ⟨kw, _, rfl, hkw, x, y, rfl, hx, e, hy⟩ := hrun
    exact ⟨e, spells_iff.mpr (.func hkw (.mk hx hy trivial) trivial)⟩

end Fields

/-! ## All types -/

/-- A type is printed if the types in it are: one case for each form. -/
theorem printed_step {t : TypeExpr} {run : List Token} {e : Ending}
    (h : Spells .lexed t run e) (hdots : t.DotsInParams)
    (ih : ∀ c ∈ t.children, PrintsDeep c) : RenderPrinted t := by
  have hchild : ∀ c ∈ t.openChildren, ∀ {part : List Token} {e : Ending},
      Spells .lexed c part e → RenderPrinted c := by
    intro c hc part e hspells
    have hdeep := ih c (TypeExpr.mem_children_of_mem_openChildren hc)
    exact hdeep.1 hspells ((TypeExpr.dotsInParams_iff.mp hdots).2 c hc)
  cases spells_iff.mp h with
  | named hname =>
    intro text hr
    cases hr
    refine (printed_name hname).mono ?_
    intro run hrun
    obtain ⟨e, hrun⟩ := hrun
    exact ⟨e, spells_iff.mpr (.named hrun)⟩
  | applied hbase _ hne hargs _ =>
    refine printed_applied hbase hne fun t ht => ?_
    obtain ⟨part, e, hspells⟩ := hargs.item_of_mem ht
    exact hchild t (List.mem_cons_of_mem _ ht) hspells
  | pointer _ helem _ => exact printed_pointer (hchild _ List.mem_cons_self helem)
  | slice _ _ helem _ => exact printed_slice (hchild _ List.mem_cons_self helem)
  | array _ hlength _ helem _ =>
    exact printed_array hlength (hchild _ List.mem_cons_self helem)
  | map _ _ hkey _ hvalue _ =>
    obtain ⟨e', hkey⟩ := hkey
    exact printed_map (hchild _ List.mem_cons_self hkey)
      (hchild _ (List.mem_cons_of_mem _ List.mem_cons_self) hvalue)
  | chan _ hfirst helem _ =>
    refine printed_chan (hchild _ List.mem_cons_self helem) fun _ harrow => ?_
    -- an element that an arrow announces did start with one
    obtain ⟨s', elem', rfl⟩ := eq_of_announcedBy_arrow harrow
    obtain ⟨first', more, heq, hannounced⟩ := (spells_iff.mp helem).announced
    cases heq
    exact hfirst hannounced
  | send _ _ helem _ => exact printed_chan (hchild _ List.mem_cons_self helem) nofun
  | receive _ _ helem _ =>
    exact printed_chan (hchild _ List.mem_cons_self helem) nofun
  | func _ hsig _ => exact fun text hr => printed_func hsig ih hdots hr
  | struct => exact printed_struct
  | interface => exact printed_interface
  | paren => exact nofun

/-- **The text of a type spells the type without its bodies.** -/
theorem printed_of_spells (t : TypeExpr) : Prints t := by
  suffices hdeep : PrintsDeep t from hdeep.1
  induction t using TypeExpr.induction_children with
  | h t ih =>
    exact ⟨fun run e h hdots => printed_step h hdots ih, fun c hc => (ih c hc).1⟩

end GoInventory
