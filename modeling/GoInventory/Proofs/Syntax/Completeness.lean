import GoInventory.Proofs.Syntax.Lookahead
import GoInventory.Proofs.Syntax.Reads

/-!
# The parser reads what the grammar spells

If the tokens ahead spell a type, and what follows them does not go on with it,
then the parser of types takes exactly those tokens and gives the type back, up
to spans. Each form has a lemma of its own, in which the parser of the types
inside is known to read what `R` describes (`ReadsTypes`); the main result
follows by induction on the depth of nesting.
-/

namespace GoInventory

namespace Parser

open Grammar

/-- The parser reads the types that `R` describes, up to spans. -/
def ReadsTypes (inner : Parser TypeExpr) (R : TypeExpr → List Token → Ending → Prop) :
    Prop :=
  ∀ {t : TypeExpr} {run : List Token} {e : Ending} {c : Cursor} {rest : List Token},
    R t run e →
    c.rest = run ++ rest → e.Stops rest →
    Reads inner c rest fun t' => t'.mapOffsets forget = t.mapOffsets forget

/-! ## Forms that several types share -/

section Shared

variable {α β γ : Type} {c : Cursor} {mid rest : List Token} {P : α → Prop}
  {Q : β → Prop} {part : Parser α}

/-- A part is read, and then what is made of it. -/
theorem reads_spanned {ahead : List Token} {make : Span → α → Parser β}
    (hc : c.rest = ahead) (hpart : ∀ c', c'.rest = ahead → Reads part c' mid P)
    (hmake : ∀ span a c', c'.rest = mid → P a → Reads (make span a) c' rest Q) :
    Reads (spanned part make) c rest Q := by
  unfold spanned
  refine (reads_here hc).bind fun start c₁ hc₁ _ => ?_
  refine (hpart c₁ hc₁).bind fun a c₂ hc₂ ha => ?_
  exact (reads_since hc₂).bind fun span c₃ hc₃ _ => hmake span a c₃ hc₃ ha

/-- The same for a part behind the token that announces it. -/
theorem reads_behindToken {t : Token} {ahead : List Token}
    {make : Span → α → Parser β} (hc : c.rest = t :: ahead)
    (hpart : ∀ c', c'.rest = ahead → Reads part c' mid P)
    (hmake : ∀ span a c', c'.rest = mid → P a → Reads (make span a) c' rest Q) :
    Reads (behindToken part make) c rest Q := by
  unfold behindToken
  refine (reads_here hc).bind fun start c₁ hc₁ _ => ?_
  refine (reads_advance hc₁).bind fun _ c₂ hc₂ _ => ?_
  refine (hpart c₂ hc₂).bind fun a c₃ hc₃ ha => ?_
  exact (reads_since hc₃).bind fun span c₄ hc₄ _ => hmake span a c₄ hc₄ ha

/-- Members in braces are read one by one, up to the closing brace. -/
theorem reads_bracedOf {item : Parser α} {spelled : α → List Token → Prop} {f : α → γ}
    {opened itemEnd : Expected} {make : Span → List α → Parser β} {kw lb : Token}
    {items : List α} {run : List Token}
    (hitem : ReadsItems item spelled f .semicolon .closeBrace)
    (hlb : lb.tok = .op .openBrace)
    (hitems : Listed spelled .semicolon .closeBrace items run)
    (hc : c.rest = kw :: lb :: run ++ rest)
    (hmake : ∀ span items' c', c'.rest = rest → items'.map f = items.map f →
      Reads (make span items') c' rest Q) :
    Reads (bracedOf opened itemEnd item make) c rest Q := by
  unfold bracedOf
  refine (reads_here hc).bind fun start c₁ hc₁ _ => ?_
  refine (reads_advance hc₁).bind fun _ c₂ hc₂ _ => ?_
  refine (reads_expect hc₂ hlb).bind fun _ c₃ hc₃ _ => ?_
  refine (reads_memberList (by simp) hitem hitems hc₃).bind
    fun items' c₄ hc₄ hsame => ?_
  exact (reads_since hc₄).bind fun span c₅ hc₅ _ => hmake span items' c₅ hc₅ hsame

end Shared

/-! ## Names, array lengths and tags -/

section Leaves

variable {F : Placement} {c : Cursor} {rest : List Token}

/-- An identifier is read from its token, up to its span. -/
theorem reads_isIdent {n : Ident} {t : Token} (ht : IsIdent F n t)
    (hc : c.rest = t :: rest) :
    Reads ident c rest fun n' => n'.mapOffsets forget = n.mapOffsets forget :=
  (reads_ident hc ht.1).mono fun _ hn => Ident.mapOffsets_forget hn

/-- A list of names is read to its end, if no comma follows that would
go on with it. -/
theorem reads_names {names : List Ident} {run : List Token}
    (h : Separated (IdentRun F) .comma names run) (hc : c.rest = run ++ rest)
    (hrest : ∀ t ∈ rest.head?, t.tok ≠ .op .comma) :
    Reads identList c rest fun names' =>
      names'.map (Ident.mapOffsets forget) = names.map (Ident.mapOffsets forget) := by
  refine (reads_identList h hc hrest).mono fun names' hnames => ?_
  have hforget : Ident.mapOffsets forget
      = (fun name => ⟨name, ⟨0, 0⟩⟩) ∘ Ident.name := rfl
  rw [hforget, ← List.map_map, ← List.map_map, hnames]

/-- A name is read to its end, if no dot follows that would make it a
qualified one. -/
theorem reads_typeName {n : TypeName} {run : List Token} {e : Ending}
    (h : Name F n run e) (hc : c.rest = run ++ rest)
    (hdot : e = .name → ∀ t ∈ rest.head?, t.tok ≠ .op .dot) :
    Reads typeName c rest fun n' => n'.mapOffsets forget = n.mapOffsets forget := by
  unfold typeName typeNameOf
  refine (reads_here hc).bind fun start c₁ hc₁ _ => ?_
  cases h with
  | plain ht =>
    refine (reads_isIdent ht hc₁).bind fun n' c₂ hc₂ hn => ?_
    refine (reads_eat_not hc₂ (hdot rfl)).bind fun b c₃ hc₃ hb => ?_
    subst hb
    refine Reads.pure hc₃ ?_
    simp only [TypeName.mapOffsets, hn]
  | qualified ht hd hu _ =>
    refine (reads_isIdent ht hc₁).bind fun pkg c₂ hc₂ hpkg => ?_
    refine (reads_eat hc₂ hd).bind fun b c₃ hc₃ hb => ?_
    subst hb
    refine (reads_isIdent hu hc₃).bind fun n' c₄ hc₄ hn => ?_
    refine (reads_since hc₄).bind fun s c₅ hc₅ _ => ?_
    refine Reads.pure hc₅ ?_
    simp only [TypeName.mapOffsets, hpkg, hn, Span.mapOffsets, forget]

/-- A length is understood the way it is spelled. -/
theorem ofTokens_of_length {length : LengthExpr} {run : List Token}
    (h : Length F length run) (s : Span) :
    (LengthExpr.ofTokens s run).mapOffsets forget = length.mapOffsets forget := by
  cases h with
  | @ident n t ht =>
    obtain ⟨start, tok, stop⟩ := t
    obtain ⟨rfl, -⟩ := ht
    rfl
  | @selector _ pkg sel t dot u ht hdot hu _ =>
    obtain ⟨start, tok, stop⟩ := t
    obtain ⟨start', tok', stop'⟩ := dot
    obtain ⟨start'', tok'', stop''⟩ := u
    obtain ⟨rfl, -⟩ := ht
    obtain ⟨rfl, -⟩ := hu
    cases hdot
    rfl
  | @literal _ kind text t ht _ =>
    obtain ⟨start, tok, stop⟩ := t
    cases ht
    rfl
  | other hother _ =>
    unfold LengthExpr.ofTokens
    split
    next => exact absurd (hother.not_leaf _ rfl) (by simp [Tok.text?])
    next => exact absurd rfl (hother.not_selector _ _ _ _ _ rfl rfl rfl)
    next => exact absurd (hother.not_leaf _ rfl) (by simp [Tok.text?])
    next => rfl

/-- **The length of an array is read up to the bracket that closes it**, since
the brackets in it are balanced. -/
theorem reads_arrayLength {length : LengthExpr} {first rb : Token} {run : List Token}
    (hbal : Balanced (first :: run)) (hrb : rb.tok = .op .closeBracket)
    (h : Length F length (first :: run)) (hc : c.rest = first :: run ++ rb :: rest) :
    Reads arrayLength c (rb :: rest)
      fun l => l.mapOffsets forget = length.mapOffsets forget := by
  have hclosed : enclosed? 0 c.rest = some (first :: run, rb :: rest) := by
    rw [hc]
    exact enclosed?_of_balanced hbal (by rw [hrb]; rfl)
  have hlen : (arrayLength : Parser LengthExpr) c = .ok
      (.ofTokens (.clamp first.start ((first :: run).getLast (by simp)).stop)
        (first :: run),
        c.after ((first :: run).getLast (by simp)) (rb :: rest)) := by
    dsimp only [arrayLength, AtCursor.arrayLength]
    rw [hclosed]
  exact ⟨_, _, hlen, rfl, ofTokens_of_length h _⟩

/-- The ellipsis, or a length. -/
theorem reads_arrayBound {length : ArrayLength} {rb : Token} {run : List Token}
    (h : Bound F length run) (hrb : rb.tok = .op .closeBracket)
    (hc : c.rest = run ++ rb :: rest) :
    Reads arrayBound c (rb :: rest)
      fun l => l.mapOffsets forget = length.mapOffsets forget := by
  unfold arrayBound arrayBoundOf
  cases h with
  | ellipsis hdots =>
    refine (reads_eat hc hdots).bind fun b c₁ hc₁ hb => ?_
    subst hb
    exact Reads.pure hc₁ rfl
  | expr hfirst hbal hlen =>
    refine (reads_eat_not hc (by simpa using hfirst)).bind fun b c₁ hc₁ hb => ?_
    subst hb
    refine (reads_arrayLength hbal hrb hlen hc₁).bind fun l c₂ hc₂ hl => ?_
    refine Reads.pure hc₂ ?_
    simp only [ArrayLength.mapOffsets, hl]

/-- A token that spells a string literal is announced as one. -/
theorem isString_of_isString {lit : StringLit} {t : Token} (h : IsString F lit t) :
    t.tok.isString = true := by
  cases h with
  | interpreted htok => rw [htok]; rfl
  | raw htok => rw [htok]; rfl

/-- A tag is read if there is one, and nothing is taken for one if there is none. -/
theorem reads_tag {tag : Option StringLit} {run : List Token} (h : Tag F tag run)
    (hc : c.rest = run ++ rest) (hrest : ∀ u ∈ rest.head?, u.tok.isString = false) :
    Reads tag? c rest fun tag' =>
      tag'.map (StringLit.mapOffsets forget)
        = tag.map (StringLit.mapOffsets forget) := by
  unfold tag? ifString
  cases h with
  | none =>
    cases rest with
    | nil =>
      refine (reads_peek_none hc).bind fun tok c₁ hc₁ htok => ?_
      subst htok
      exact Reads.pure hc₁ rfl
    | cons u rest =>
      refine (reads_peek hc).bind fun tok c₁ hc₁ htok => ?_
      subst htok
      show Reads (if u.tok.isString = true then _ else _) c₁ _ _
      rw [hrest u rfl]
      exact Reads.pure hc₁ rfl
  | @some lit u hlit =>
    refine (reads_peek hc).bind fun tok c₁ hc₁ htok => ?_
    subst htok
    show Reads (if u.tok.isString = true then _ else _) c₁ _ _
    rw [isString_of_isString hlit]
    refine (reads_stringLit hc₁ hlit).bind fun lit' c₂ hc₂ hlit' => ?_
    refine Reads.pure hc₂ ?_
    simp only [Option.map_some, StringLit.mapOffsets, hlit'.1, hlit'.2,
      Span.mapOffsets, forget]

/-- What stands behind the type of a member: its tag and the end of the member. -/
theorem endsEmbedded_of_tag {tag : Option StringLit} {run : List Token}
    (h : Tag F tag run) (hrest : Follows .semicolon .closeBrace rest) :
    Cursor.EndsEmbedded (run ++ rest) := by
  cases h with
  | none =>
    obtain ⟨u, more, rfl, hu⟩ := hrest
    exact ⟨u, more, rfl, hu.imp id Or.inl⟩
  | some hlit => exact ⟨_, rest, rfl, Or.inr (Or.inr (isString_of_isString hlit))⟩

/-- A type stops before the end of its member. -/
theorem stops_of_endsEmbedded (h : Cursor.EndsEmbedded rest) (e : Ending) :
    e.Stops rest := by
  obtain ⟨u, more, rfl, hu | hu | hu⟩ := h
  · exact e.stops_cons hu rfl (by simp) more
  · exact e.stops_cons hu rfl (by simp) more
  · obtain ⟨text, hlit | hlit⟩ := Tok.eq_of_isString hu
    · exact e.stops_cons hlit rfl (by simp) more
    · exact e.stops_cons hlit rfl (by simp) more

end Leaves

/-- The operator ends a constraint: it goes on with no type and joins no
further term. -/
structure EndsConstraint (o : Operator) : Prop where
  not_type : (Tok.op o).startsType = false
  not_dot : o ≠ .dot
  not_pipe : o ≠ .pipe

theorem endsConstraint_semicolon : EndsConstraint .semicolon := ⟨rfl, nofun, nofun⟩

theorem endsConstraint_closeBrace : EndsConstraint .closeBrace := ⟨rfl, nofun, nofun⟩

/-- A name without type arguments. -/
theorem reads_namedType_named {inner : Parser TypeExpr} {n : TypeName}
    {run rest : List Token} {e : Ending} {c : Cursor} (hn : Name .anywhere n run e)
    (hc : c.rest = run ++ rest) (hstop : e.Stops rest) :
    Reads (namedType inner) c rest fun t' =>
      t'.mapOffsets forget = (TypeExpr.named n).mapOffsets forget := by
  have hdot : e = .name → ∀ u ∈ rest.head?, u.tok ≠ .op .dot := by
    intro hname u hu heq
    subst hname
    have hcont := hstop u hu
    rw [heq] at hcont
    cases hcont
  have hbracket : ∀ u ∈ rest.head?, u.tok ≠ .op .openBracket := by
    intro u hu heq
    have hcont := hstop u hu
    rw [heq] at hcont
    cases hn <;> cases hcont
  unfold namedType namedOf
  refine (reads_here hc).bind fun start c₁ hc₁ _ => ?_
  refine (reads_typeName hn hc₁ hdot).bind fun n c₂ hc₂ hn' => ?_
  refine (reads_eat_not hc₂ hbracket).bind fun b c₃ hc₃ hb => ?_
  subst hb
  refine Reads.pure hc₃ ?_
  simp only [TypeExpr.mapOffsets, hn']

section Forms

variable {inner : Parser TypeExpr} {R : TypeExpr → List Token → Ending →
  Prop} {c : Cursor}
  {rest : List Token} (hinner : ReadsTypes inner R) (hR : Shaped R)

include hinner

/-- A type before a token that goes on with no type. -/
theorem reads_inner {t : TypeExpr} {u : Token} {tok : Tok} {run : List Token}
    (h : Inner R t run) (hc : c.rest = run ++ u :: rest) (hu : u.tok = tok)
    (hstart : tok.startsType = false) (hdot : tok ≠ .op .dot) :
    Reads inner c (u :: rest)
      fun t' => t'.mapOffsets forget = t.mapOffsets forget := by
  obtain ⟨e, h⟩ := h
  exact hinner h hc (e.stops_cons hu hstart hdot rest)

include hR

/-! ## Type arguments -/

/-- Type arguments are read one by one. -/
theorem readsItems_arguments :
    ReadsItems inner (Inner R) (TypeExpr.mapOffsets forget) .comma .closeBracket where
  head := by
    intro t run hinner
    obtain ⟨e, h⟩ := hinner
    obtain ⟨first, more, rfl, hfirst⟩ := hR.starts h
    refine ⟨first, more, rfl, fun heq => ?_⟩
    rw [heq] at hfirst
    cases hfirst
  reads := by
    intro t run c rest h hc hfollows
    rcases hfollows with ⟨u, more, rfl, hu | hu⟩
    · exact reads_inner hinner h hc hu rfl (by simp)
    · exact reads_inner hinner h hc hu rfl (by simp)

/-- A name with type arguments, in brackets that are next to it. -/
theorem reads_namedType_applied {s : Span} {base : TypeName} {args : List TypeExpr}
    {run more : List Token} {lb : Token} {e : Ending}
    (hbase : Name .anywhere base run e) (hlb : lb.tok = .op .openBracket)
    (hne : args ≠ []) (hargs : Listed (Inner R) .comma .closeBracket args more)
    (hc : c.rest = run ++ lb :: more ++ rest) :
    Reads (namedType inner) c rest fun t' =>
      t'.mapOffsets forget = (TypeExpr.applied s base args).mapOffsets forget := by
  unfold namedType namedOf
  rw [List.append_assoc, List.cons_append] at hc
  refine (reads_here hc).bind fun start c₁ hc₁ _ => ?_
  -- the bracket ends the name: a plain one does not go on to be qualified
  have hdot : e = .name → ∀ u ∈ (lb :: (more ++ rest)).head?, u.tok ≠ .op .dot := by
    intro _ u hu
    cases hu
    rw [hlb]
    simp
  refine (reads_typeName hbase hc₁ hdot).bind fun n c₂ hc₂ hn => ?_
  refine (reads_eat hc₂ hlb).bind fun b c₃ hc₃ hb => ?_
  subst hb
  refine (reads_commaList (by simp) (readsItems_arguments hinner hR) hargs hc₃).bind
    fun args' c₄ hc₄ hargs' => ?_
  refine (reads_since hc₄).bind fun s' c₅ hc₅ _ => ?_
  have hne' : args'.isEmpty = false := by
    cases args' with
    | nil =>
      cases args with
      | nil => exact absurd rfl hne
      | cons => cases hargs'
    | cons => rfl
  rw [hne']
  refine Reads.pure hc₅ ?_
  simp only [TypeExpr.mapOffsets, mapOffsetsTypes_eq, hn, hargs',
    Span.mapOffsets, forget]

omit hR

/-! ## Pointers, arrays, maps, channels and parentheses -/

/-- A pointer type ends where the type pointed to ends. -/
theorem reads_pointerType {s : Span} {elem : TypeExpr} {star : Token}
    {run : List Token} {e : Ending} (helem : R elem run e)
    (hc : c.rest = star :: run ++ rest) (hstop : e.Stops rest) :
    Reads (pointerType inner) c rest fun t' =>
      t'.mapOffsets forget = (TypeExpr.pointer s elem).mapOffsets forget := by
  refine reads_behindToken hc (fun c₁ hc₁ => hinner helem hc₁ hstop)
    fun s' elem' c₂ hc₂ helem' => ?_
  refine Reads.pure hc₂ ?_
  simp only [TypeExpr.mapOffsets, helem', Span.mapOffsets, forget]

/-- A slice has nothing between its brackets. -/
theorem reads_bracketType_slice {s : Span} {elem : TypeExpr} {lb rb : Token}
    {run : List Token} {e : Ending} (hrb : rb.tok = .op .closeBracket)
    (helem : R elem run e) (hc : c.rest = lb :: rb :: run ++ rest)
    (hstop : e.Stops rest) : Reads (bracketType inner) c rest fun t' =>
      t'.mapOffsets forget = (TypeExpr.slice s elem).mapOffsets forget := by
  unfold bracketType bracketOf
  refine (reads_here hc).bind fun start c₁ hc₁ _ => ?_
  refine (reads_advance hc₁).bind fun _ c₂ hc₂ _ => ?_
  refine (reads_eat hc₂ hrb).bind fun b c₃ hc₃ hb => ?_
  subst hb
  refine (hinner helem hc₃ hstop).bind fun elem' c₄ hc₄ helem' => ?_
  refine (reads_since hc₄).bind fun s' c₅ hc₅ _ => ?_
  refine Reads.pure hc₅ ?_
  simp only [TypeExpr.mapOffsets, helem', Span.mapOffsets, forget]

/-- An array has a length between its brackets. -/
theorem reads_bracketType_array {s : Span} {length : ArrayLength} {elem : TypeExpr}
    {lb rb : Token} {lengthRun run : List Token} {e : Ending}
    (hlen : Bound .anywhere length lengthRun) (hrb : rb.tok = .op .closeBracket)
    (helem : R elem run e) (hc : c.rest = lb :: lengthRun ++ rb :: run ++ rest)
    (hstop : e.Stops rest) : Reads (bracketType inner) c rest fun t' =>
      t'.mapOffsets forget = (TypeExpr.array s length elem).mapOffsets forget := by
  unfold bracketType bracketOf
  rw [List.append_assoc, List.cons_append, List.cons_append] at hc
  refine (reads_here hc).bind fun start c₁ hc₁ _ => ?_
  refine (reads_advance hc₁).bind fun _ c₂ hc₂ _ => ?_
  have hnot : ∀ u ∈ (lengthRun ++ rb :: (run ++ rest)).head?,
      u.tok ≠ .op .closeBracket := by
    obtain ⟨first, more, rfl, hfirst⟩ := hlen.head_ne
    simpa using hfirst
  refine (reads_eat_not hc₂ hnot).bind fun b c₃ hc₃ hb => ?_
  subst hb
  refine (reads_arrayBound hlen hrb hc₃).bind fun length' c₄ hc₄ hlength' => ?_
  refine (reads_expect hc₄ hrb).bind fun _ c₅ hc₅ _ => ?_
  refine (hinner helem hc₅ hstop).bind fun elem' c₆ hc₆ helem' => ?_
  refine (reads_since hc₆).bind fun s' c₇ hc₇ _ => ?_
  refine Reads.pure hc₇ ?_
  simp only [TypeExpr.mapOffsets, helem', hlength', Span.mapOffsets, forget]

/-- A map type ends where the type of its values ends. -/
theorem reads_mapType {s : Span} {key value : TypeExpr} {kw lb rb : Token}
    {keyRun run : List Token} {e : Ending} (hlb : lb.tok = .op .openBracket)
    (hkey : Inner R key keyRun) (hrb : rb.tok = .op .closeBracket)
    (hvalue : R value run e) (hc : c.rest = kw :: lb :: keyRun ++ rb :: run ++ rest)
    (hstop : e.Stops rest) : Reads (mapType inner) c rest fun t' =>
      t'.mapOffsets forget = (TypeExpr.map s key value).mapOffsets forget := by
  unfold mapType mapOf
  rw [List.append_assoc, List.cons_append, List.cons_append, List.cons_append] at hc
  refine (reads_here hc).bind fun start c₁ hc₁ _ => ?_
  refine (reads_advance hc₁).bind fun _ c₂ hc₂ _ => ?_
  refine (reads_expect hc₂ hlb).bind fun _ c₃ hc₃ _ => ?_
  refine (reads_inner hinner hkey hc₃ hrb rfl (by simp)).bind
    fun key' c₄ hc₄ hkey' => ?_
  refine (reads_expect hc₄ hrb).bind fun _ c₅ hc₅ _ => ?_
  refine (hinner hvalue hc₅ hstop).bind fun value' c₆ hc₆ hvalue' => ?_
  refine (reads_since hc₆).bind fun s' c₇ hc₇ _ => ?_
  refine Reads.pure hc₇ ?_
  simp only [TypeExpr.mapOffsets, hkey', hvalue', Span.mapOffsets, forget]

/-- A channel type has no direction if no arrow follows its keyword. -/
theorem reads_chanType_both {s : Span} {elem : TypeExpr} {kw first : Token}
    {run : List Token} {e : Ending} (hfirst : first.tok ≠ .op .arrow)
    (helem : R elem (first :: run) e) (hc : c.rest = kw :: first :: run ++ rest)
    (hstop : e.Stops rest) : Reads (chanType inner) c rest fun t' =>
      t'.mapOffsets forget = (TypeExpr.chan s .both elem).mapOffsets forget := by
  unfold chanType chanOf
  refine (reads_here hc).bind fun start c₁ hc₁ _ => ?_
  refine (reads_advance hc₁).bind fun _ c₂ hc₂ _ => ?_
  refine (reads_eat_not hc₂ (by simpa using hfirst)).bind fun b c₃ hc₃ hb => ?_
  subst hb
  refine (hinner helem hc₃ hstop).bind fun elem' c₄ hc₄ helem' => ?_
  refine (reads_since hc₄).bind fun s' c₅ hc₅ _ => ?_
  refine Reads.pure hc₅ ?_
  simp [TypeExpr.mapOffsets, helem', Span.mapOffsets, forget]

/-- With an arrow behind its keyword, it is one to send to. -/
theorem reads_chanType_send {s : Span} {elem : TypeExpr} {kw arrow : Token}
    {run : List Token} {e : Ending} (harrow : arrow.tok = .op .arrow)
    (helem : R elem run e) (hc : c.rest = kw :: arrow :: run ++ rest)
    (hstop : e.Stops rest) : Reads (chanType inner) c rest fun t' =>
      t'.mapOffsets forget = (TypeExpr.chan s .send elem).mapOffsets forget := by
  unfold chanType chanOf
  refine (reads_here hc).bind fun start c₁ hc₁ _ => ?_
  refine (reads_advance hc₁).bind fun _ c₂ hc₂ _ => ?_
  refine (reads_eat hc₂ harrow).bind fun b c₃ hc₃ hb => ?_
  subst hb
  refine (hinner helem hc₃ hstop).bind fun elem' c₄ hc₄ helem' => ?_
  refine (reads_since hc₄).bind fun s' c₅ hc₅ _ => ?_
  refine Reads.pure hc₅ ?_
  simp [TypeExpr.mapOffsets, helem', Span.mapOffsets, forget]

/-- With an arrow before its keyword, it is one to receive from. -/
theorem reads_receiveType {s : Span} {elem : TypeExpr} {arrow kw : Token}
    {run : List Token} {e : Ending} (hkw : kw.tok = .keyword .chan)
    (helem : R elem run e) (hc : c.rest = arrow :: kw :: run ++ rest)
    (hstop : e.Stops rest) : Reads (receiveType inner) c rest fun t' =>
      t'.mapOffsets forget = (TypeExpr.chan s .receive elem).mapOffsets forget := by
  unfold receiveType receiveOf
  refine (reads_here hc).bind fun start c₁ hc₁ _ => ?_
  refine (reads_advance hc₁).bind fun _ c₂ hc₂ _ => ?_
  refine (reads_expect hc₂ hkw).bind fun _ c₃ hc₃ _ => ?_
  refine (hinner helem hc₃ hstop).bind fun elem' c₄ hc₄ helem' => ?_
  refine (reads_since hc₄).bind fun s' c₅ hc₅ _ => ?_
  refine Reads.pure hc₅ ?_
  simp only [TypeExpr.mapOffsets, helem', Span.mapOffsets, forget]

/-- A type in parentheses ends with the closing one, whatever follows. -/
theorem reads_parenType {s : Span} {elem : TypeExpr} {lp rp : Token}
    {run : List Token} (helem : Inner R elem run) (hrp : rp.tok = .op .closeParen)
    (hc : c.rest = lp :: run ++ [rp] ++ rest) :
    Reads (parenType inner) c rest fun t' =>
      t'.mapOffsets forget = (TypeExpr.paren s elem).mapOffsets forget := by
  unfold parenType parenOf
  rw [List.append_assoc, List.singleton_append, List.cons_append] at hc
  refine (reads_here hc).bind fun start c₁ hc₁ _ => ?_
  refine (reads_advance hc₁).bind fun _ c₂ hc₂ _ => ?_
  refine (reads_inner hinner helem hc₂ hrp rfl (by simp)).bind
    fun elem' c₃ hc₃ helem' => ?_
  refine (reads_expect hc₃ hrp).bind fun _ c₄ hc₄ _ => ?_
  refine (reads_since hc₄).bind fun s' c₅ hc₅ _ => ?_
  refine Reads.pure hc₅ ?_
  simp only [TypeExpr.mapOffsets, helem', Span.mapOffsets, forget]

/-! ## Parameters, results and function types -/

include hR

/-- The type of a parameter ends at a token that cannot go on with it. -/
theorem reads_paramType {t : TypeExpr} {u : Token} {tok : Tok} {run : List Token}
    (h : ParamType .anywhere R t run) (hc : c.rest = run ++ u :: rest)
    (hu : u.tok = tok) (hstart : tok.startsType = false) (hdot : tok ≠ .op .dot) :
    Reads (paramType inner) c (u :: rest)
      fun t' => t'.mapOffsets forget = t.mapOffsets forget := by
  unfold paramType paramTypeOf
  refine (reads_here hc).bind fun start c₁ hc₁ _ => ?_
  cases h with
  | plain hplain =>
    have hnot : ∀ w ∈ (run ++ u :: rest).head?, w.tok ≠ .op .ellipsis := by
      obtain ⟨first, more, rfl, hfirst⟩ := Inner.starts hR hplain
      intro w hw heq
      cases hw
      rw [heq] at hfirst
      cases hfirst
    refine (reads_eat_not hc₁ hnot).bind fun b c₂ hc₂ hb => ?_
    subst hb
    exact reads_inner hinner hplain hc₂ hu hstart hdot
  | variadic hdots helem _ =>
    refine (reads_eat hc₁ hdots).bind fun b c₂ hc₂ hb => ?_
    subst hb
    refine (reads_inner hinner helem hc₂ hu hstart hdot).bind
      fun elem' c₃ hc₃ helem' => ?_
    refine (reads_since hc₃).bind fun s' c₄ hc₄ _ => ?_
    refine Reads.pure hc₄ ?_
    simp only [TypeExpr.mapOffsets, helem', Span.mapOffsets, forget]

/-- What follows an entry starts no type and goes on with none. -/
theorem reads_paramEntry {entry : ParamEntry} {run : List Token}
    (h : ClearEntry .anywhere R entry run) (hc : c.rest = run ++ rest)
    (hrest : Follows .comma .closeParen rest) :
    Reads (paramEntry inner) c rest fun entry' =>
      entry'.mapOffsets forget = entry.mapOffsets forget := by
  obtain ⟨u, more, rfl, hu⟩ := hrest
  have hu' : u.tok.startsType = false ∧ u.tok ≠ .op .dot := by
    rcases hu with hu | hu <;> rw [hu] <;> exact ⟨rfl, by simp⟩
  obtain ⟨hentry, hlone⟩ := h
  -- the cases are those that the lookahead tells apart, and it finds the one
  -- that was spelled
  unfold paramEntry announcedEntry
  refine (reads_ask Cursor.entryShape hc).bind fun shape c₁ hc₁ hshape => ?_
  cases hentry with
  | bare hn =>
    rw [Cursor.entryShape_bare hc hn.1 ⟨u, more, rfl, hu⟩] at hshape
    subst hshape
    show Reads bareEntry c₁ _ _
    refine (reads_isIdent hn hc₁).bind fun n' c₂ hc₂ hn' => ?_
    exact Reads.pure hc₂ (by simp only [ParamEntry.mapOffsets, hn'])
  | typed hn htype _ =>
    rw [Cursor.entryShape_typed hR hc hn.1 htype] at hshape
    subst hshape
    show Reads (typedEntry inner) c₁ _ _
    refine (reads_here hc₁).bind fun start c₂ hc₂ _ => ?_
    refine (reads_isIdent hn hc₂).bind fun n' c₃ hc₃ hn' => ?_
    refine (reads_paramType hinner hR htype hc₃ rfl hu'.1 hu'.2).bind
      fun t' c₄ hc₄ ht' => ?_
    refine (reads_since hc₄).bind fun s' c₅ hc₅ _ => ?_
    refine Reads.pure hc₅ ?_
    simp only [ParamEntry.mapOffsets, hn', ht', Span.mapOffsets, forget]
  | unnamed htype _ =>
    have hnext : Cursor.NoTypeNext (u :: more) := by
      intro w hw
      cases hw
      exact hu'.1
    rw [Cursor.entryShape_unnamed hR hc htype (hlone _ _ rfl) hnext] at hshape
    subst hshape
    refine reads_spanned hc₁
      (fun c₂ hc₂ => reads_paramType hinner hR htype hc₂ rfl hu'.1 hu'.2)
      fun s' t' c₃ hc₃ ht' => ?_
    refine Reads.pure hc₃ ?_
    simp only [ParamEntry.mapOffsets, ht', Span.mapOffsets, forget]

/-- **The entries of a list of parameters are read one by one.** Each has the
shape that its first tokens show. -/
theorem readsItems_entries :
    ReadsItems (paramEntry inner) (ClearEntry .anywhere R)
      (ParamEntry.mapOffsets forget)
      .comma .closeParen where
  head := by
    intro entry run hentry
    obtain ⟨h, -⟩ := hentry
    cases h with
    | bare hn => exact ⟨_, _, rfl, by rw [hn.1]; simp⟩
    | typed hn => exact ⟨_, _, rfl, by rw [hn.1]; simp⟩
    | unnamed htype =>
      cases htype with
      | plain hplain =>
        obtain ⟨first, more, rfl, hfirst⟩ := Inner.starts hR hplain
        refine ⟨first, more, rfl, fun heq => ?_⟩
        rw [heq] at hfirst
        cases hfirst
      | variadic hdots => exact ⟨_, _, rfl, by rw [hdots]; simp⟩
  reads := reads_paramEntry hinner hR

/-- A list of entries that can be grouped is read as its groups. -/
theorem reads_entries {entries : List ParamEntry} {fields : List (Field TypeExpr)}
    {lp : Token} {run : List Token} (hlp : lp.tok = .op .openParen)
    (h : Listed (ClearEntry .anywhere R) .comma .closeParen entries run)
    (hgroup : ParamEntry.group entries = .ok fields)
    (hc : c.rest = lp :: (run ++ rest)) :
    Reads (parameters inner) c rest fun fields' =>
      fields'.map (Field.mapOffsets forget)
        = fields.map (Field.mapOffsets forget) := by
  unfold parameters parametersOf
  refine (reads_expect hc hlp).bind fun _ c₁ hc₁ _ => ?_
  refine (reads_commaList (by simp) (readsItems_entries hinner hR) h hc₁).bind
    fun entries' c₂ hc₂ hentries => ?_
  obtain ⟨fields', hgroup', hfields⟩ :=
    ParamEntry.group_congr_mapOffsets hentries hgroup
  dsimp only
  rw [hgroup']
  exact ⟨fields', c₂, rfl, hc₂, hfields⟩

/-- Entries that were read are grouped as those that were spelled. -/
theorem reads_parameters {fields : List (Field TypeExpr)} {run : List Token}
    (h : Params .anywhere R fields run) (hc : c.rest = run ++ rest) :
    Reads (parameters inner) c rest fun fields' =>
      fields'.map (Field.mapOffsets forget)
        = fields.map (Field.mapOffsets forget) := by
  obtain ⟨lp, more, entries, fields', rfl, hlp, hlisted, hgroup, hfields⟩ :=
    h.entries ignoresSpans_anywhere hR
  exact (reads_entries hinner hR hlp hlisted hgroup hc).mono
    fun _ heq => heq.trans hfields

/-- Results are told from what follows a function by what a type can start with. -/
theorem reads_results {fields : List (Field TypeExpr)} {run : List Token} {e : Ending}
    (h : Results .anywhere R fields run e) (hc : c.rest = run ++ rest)
    (hstop : e.Stops rest) : Reads (results inner) c rest fun fields' =>
      fields'.map (Field.mapOffsets forget)
        = fields.map (Field.mapOffsets forget) := by
  unfold results announcedResults
  cases h with
  | none =>
    cases rest with
    | nil =>
      refine (reads_peek_none hc).bind fun tok c₁ hc₁ htok => ?_
      subst htok
      exact Reads.pure hc₁ rfl
    | cons u rest =>
      -- what follows the signature would be read as a result if it started a type
      have hu : u.tok.startsType = false := hstop u rfl
      refine (reads_peek hc).bind fun tok c₁ hc₁ htok => ?_
      subst htok
      split
      next heq =>
        rw [Option.some.inj heq] at hu
        cases hu
      next heq =>
        rw [← Option.some.inj heq, hu]
        exact Reads.pure hc₁ rfl
      next heq => cases heq
  | listed hp =>
    obtain ⟨lp, more, entries, fields', rfl, hlp, -⟩ :=
      hp.entries ignoresSpans_anywhere hR
    refine (reads_peek hc).bind fun tok c₁ hc₁ htok => ?_
    subst htok
    rw [hlp]
    exact reads_parameters hinner hR hp hc₁
  | @bare t s first more e hfirst ht _ =>
    obtain ⟨first', more', heq, hstart⟩ := hR.starts ht
    cases heq
    refine (reads_peek hc).bind fun tok c₁ hc₁ htok => ?_
    subst htok
    split
    next heq => exact absurd (Option.some.inj heq) hfirst
    next heq =>
      rw [← Option.some.inj heq, hstart]
      refine reads_spanned hc₁ (fun c₂ hc₂ => hinner ht hc₂ hstop)
        fun s' t' c₃ hc₃ ht' => ?_
      refine Reads.pure hc₃ ?_
      simp [Field.mapOffsets, ht', Span.mapOffsets, forget]
    next heq => cases heq

/-- A signature ends where its results end. -/
theorem reads_signature {sig : Signature TypeExpr} {run : List Token} {e : Ending}
    (h : Sig .anywhere R sig run e) (hc : c.rest = run ++ rest) (hstop : e.Stops rest) :
    Reads (signature inner) c rest
      fun sig' => sig'.mapOffsets forget = sig.mapOffsets forget := by
  obtain ⟨hp, hr, -⟩ := h
  unfold signature signatureOf
  rw [List.append_assoc] at hc
  refine (reads_here hc).bind fun start c₁ hc₁ _ => ?_
  refine (reads_parameters hinner hR hp hc₁).bind fun params' c₂ hc₂ hparams => ?_
  refine (reads_results hinner hR hr hc₂ hstop).bind
    fun results' c₃ hc₃ hresults => ?_
  refine (reads_since hc₃).bind fun s' c₄ hc₄ _ => ?_
  refine Reads.pure hc₄ ?_
  simp only [Signature.mapOffsets, hparams, hresults, Span.mapOffsets, forget]

/-- A function type ends where its signature ends. -/
theorem reads_funcType {s : Span} {sig : Signature TypeExpr} {kw : Token}
    {run : List Token} {e : Ending} (hsig : Sig .anywhere R sig run e)
    (hc : c.rest = kw :: run ++ rest) (hstop : e.Stops rest) :
    Reads (funcType inner) c rest fun t' =>
      t'.mapOffsets forget = (TypeExpr.func s sig).mapOffsets forget := by
  refine reads_behindToken hc
    (fun c₁ hc₁ => reads_signature hinner hR hsig hc₁ hstop)
    fun s' sig' c₂ hc₂ hsig' => ?_
  refine Reads.pure hc₂ ?_
  simp only [TypeExpr.mapOffsets_func, hsig', Span.mapOffsets, forget]

/-! ## Constraints -/

/-- A term ends at a token that cannot go on with its type. -/
theorem reads_term {tm : Term TypeExpr} {u : Token} {tok : Tok} {run : List Token}
    (h : TermRun R tm run) (hc : c.rest = run ++ u :: rest) (hu : u.tok = tok)
    (hstart : tok.startsType = false) (hdot : tok ≠ .op .dot) :
    Reads (term inner) c (u :: rest)
      fun tm' => tm'.mapOffsets forget = tm.mapOffsets forget := by
  unfold term termOf
  cases h with
  | plain hplain =>
    have hnot : ∀ w ∈ (run ++ u :: rest).head?, w.tok ≠ .op .tilde := by
      obtain ⟨first, more, rfl, hfirst⟩ := Inner.starts hR hplain
      intro w hw heq
      cases hw
      rw [heq] at hfirst
      cases hfirst
    refine (reads_eat_not hc hnot).bind fun b c₁ hc₁ hb => ?_
    subst hb
    refine (reads_inner hinner hplain hc₁ hu hstart hdot).bind fun t' c₂ hc₂ ht' => ?_
    exact Reads.pure hc₂ (by simp only [Term.mapOffsets, ht'])
  | tilde hmark hplain =>
    refine (reads_eat hc hmark).bind fun b c₁ hc₁ hb => ?_
    subst hb
    refine (reads_inner hinner hplain hc₁ hu hstart hdot).bind fun t' c₂ hc₂ ht' => ?_
    exact Reads.pure hc₂ (by simp only [Term.mapOffsets, ht'])

/-- The terms of a constraint, before one of the operators that may follow it. -/
theorem reads_terms {terms : List (Term TypeExpr)} {separator close : Operator}
    {run : List Token} (hsep : EndsConstraint separator)
    (hclose : EndsConstraint close) (h : Separated (TermRun R) .pipe terms run)
    (hc : c.rest = run ++ rest) (hrest : Follows separator close rest) :
    Reads (separatedList .pipe (term inner)) c rest fun terms' =>
      terms'.map (Term.mapOffsets forget) = terms.map (Term.mapOffsets forget) := by
  have hbound : run.length ≤ c.rest.length + 1 := by
    rw [hc, List.length_append]
    omega
  refine reads_separatedItems (Follows separator close) ?_ ?_ ?_ h hc hbound hrest
  · intro tm part hterm
    cases hterm with
    | plain hplain =>
      obtain ⟨first, more, rfl, -⟩ := Inner.starts hR hplain
      exact List.cons_ne_nil _ _
    | tilde => exact List.cons_ne_nil _ _
  · intro tm part c rest hterm hc hfollows
    rcases hfollows with ⟨u, more, rfl, hu⟩ | ⟨u, more, rfl, hu | hu⟩
    · exact reads_term hinner hR hterm hc hu rfl (by simp)
    · exact reads_term hinner hR hterm hc hu hsep.not_type
        (by simpa using hsep.not_dot)
    · exact reads_term hinner hR hterm hc hu hclose.not_type
        (by simpa using hclose.not_dot)
  · intro rest hfollows w hw
    obtain ⟨u, more, rfl, hu⟩ := hfollows
    cases hw
    rcases hu with hu | hu
    · simpa [hu] using hsep.not_pipe
    · simpa [hu] using hclose.not_pipe

/-- A constraint is read to its end, if what follows is not another bar. -/
theorem reads_constraint {t : TypeExpr} {separator close : Operator}
    {run : List Token} (hsep : EndsConstraint separator)
    (hclose : EndsConstraint close) (h : Constraint .anywhere R t run)
    (hc : c.rest = run ++ rest) (hrest : Follows separator close rest) :
    Reads (constraint inner) c rest
      fun t' => t'.mapOffsets forget = t.mapOffsets forget := by
  cases h with
  | plain hplain =>
    refine reads_spanned hc
      (fun c₁ hc₁ =>
        reads_terms hinner hR hsep hclose (.one (.plain hplain)) hc₁ hrest)
      fun s' terms' c₂ hc₂ hterms => ?_
    obtain ⟨⟨tilde, t'⟩, rfl, hterm⟩ : ∃ tm, terms' = [tm] ∧
        tm.mapOffsets forget = (Term.mk false t).mapOffsets forget := by
      cases terms' with
      | nil => cases hterms
      | cons tm more =>
        rw [List.map_cons, List.map_cons, List.cons.injEq, List.map_nil,
          List.map_eq_nil_iff] at hterms
        exact ⟨tm, by rw [hterms.2], hterms.1⟩
    obtain ⟨rfl, ht'⟩ := Term.mk.inj hterm
    exact Reads.pure hc₂ ht'
  | @union s terms _ hterms hrun _ =>
    refine reads_spanned hc
      (fun c₁ hc₁ => reads_terms hinner hR hsep hclose hrun hc₁ hrest)
      fun s' terms' c₂ hc₂ hterms' => ?_
    split
    next t' =>
      -- the spelled terms would be a single one without a tilde, too
      obtain _ | ⟨⟨tilde, t⟩, more⟩ := terms
      · cases hterms'
      · rw [List.map_cons, List.map_cons, List.cons.injEq, List.map_nil,
          eq_comm (a := []), List.map_eq_nil_iff] at hterms'
        obtain ⟨hhead, rfl⟩ := hterms'
        obtain ⟨rfl, -⟩ := Term.mk.inj hhead
        exact absurd rfl (hterms t)
    next =>
      refine Reads.pure hc₂ ?_
      simp only [TypeExpr.mapOffsets, mapOffsetsTerms_eq, hterms',
        Span.mapOffsets, forget]

/-! ## Struct and interface bodies -/

/-- A member is read to its end: names, type and tag. -/
theorem reads_structMember {f : Field TypeExpr} {run : List Token}
    (h : MemberRun .anywhere R f run) (hc : c.rest = run ++ rest)
    (hrest : Follows .semicolon .closeBrace rest) :
    Reads (structMember inner) c rest
      fun f' => f'.mapOffsets forget = f.mapOffsets forget := by
  have hnotag : ∀ u ∈ rest.head?, u.tok.isString = false := by
    obtain ⟨u, more, rfl, hu⟩ := hrest
    intro w hw
    cases hw
    rcases hu with hu | hu <;> rw [hu] <;> rfl
  unfold structMember structMemberOf
  refine (reads_here hc).bind fun start c₁ hc₁ _ => ?_
  cases h with
  | @named names t tag s nameRun typeRun tagRun hnames ht htag _ =>
    obtain ⟨e, ht⟩ := ht
    rw [List.append_assoc] at hc₁
    have hmember : Reads memberNames c₁ (typeRun ++ (tagRun ++ rest)) fun names' =>
        names'.map (Ident.mapOffsets forget)
          = names.map (Ident.mapOffsets forget) := by
      unfold memberNames announcedNames
      refine (reads_ask Cursor.isEmbedded? hc₁).bind
        fun embedded c₂ hc₂ hembedded => ?_
      rw [Cursor.isEmbedded?_named hR hnames ht hc₁] at hembedded
      subst hembedded
      rw [List.append_assoc] at hc₂
      refine reads_names hnames hc₂ ?_
      -- the names end where the type starts, and no type starts with a comma
      obtain ⟨first, more, rfl, hfirst⟩ := hR.starts ht
      intro w hw heq
      cases hw
      rw [heq] at hfirst
      cases hfirst
    refine hmember.bind fun names' c₂ hc₂ hnames' => ?_
    refine (hinner ht hc₂
      (stops_of_endsEmbedded (endsEmbedded_of_tag htag hrest) e)).bind
      fun t' c₃ hc₃ ht' => ?_
    refine (reads_tag htag hc₃ hnotag).bind fun tag' c₄ hc₄ htag' => ?_
    refine (reads_since hc₄).bind fun s' c₅ hc₅ _ => ?_
    refine Reads.pure hc₅ ?_
    simp only [Field.mapOffsets, hnames', ht', htag', Span.mapOffsets, forget]
  | @embedded t tag s first typeRun tagRun hfirst ht htag _ =>
    obtain ⟨e, ht⟩ := ht
    have hend := endsEmbedded_of_tag htag hrest
    rw [List.append_assoc] at hc₁
    have hmember : Reads memberNames c₁ (first :: typeRun ++ (tagRun ++ rest))
        (· = []) := by
      unfold memberNames announcedNames
      refine (reads_ask Cursor.isEmbedded? hc₁).bind
        fun embedded c₂ hc₂ hembedded => ?_
      rw [Cursor.isEmbedded?_embedded hR hc₁ hfirst ht hend] at hembedded
      subst hembedded
      exact Reads.pure hc₂ rfl
    refine hmember.bind fun names' c₂ hc₂ hnames' => ?_
    subst hnames'
    refine (hinner ht hc₂ (stops_of_endsEmbedded hend e)).bind fun t' c₃ hc₃ ht' => ?_
    refine (reads_tag htag hc₃ hnotag).bind fun tag' c₄ hc₄ htag' => ?_
    refine (reads_since hc₄).bind fun s' c₅ hc₅ _ => ?_
    refine Reads.pure hc₅ ?_
    simp only [Field.mapOffsets, ht', htag', Span.mapOffsets, forget]

/-- The members of a struct are read one by one. -/
theorem readsItems_members :
    ReadsItems (structMember inner) (MemberRun .anywhere R) (Field.mapOffsets forget)
      .semicolon .closeBrace where
  head := by
    intro f run h
    cases h with
    | named hnames =>
      cases hnames with
      | one hn =>
        obtain ⟨t, rfl, ht, -⟩ := hn
        exact ⟨_, _, rfl, by rw [ht]; simp⟩
      | cons hn =>
        obtain ⟨t, rfl, ht, -⟩ := hn
        exact ⟨_, _, rfl, by rw [ht]; simp⟩
    | embedded hfirst =>
      refine ⟨_, _, rfl, ?_⟩
      rcases hfirst with hstar | ⟨name, hname⟩
      · rw [hstar]; simp
      · rw [hname]; simp
  reads := reads_structMember hinner hR

/-- A struct type ends with its closing brace. -/
theorem reads_structType {s : Span} {fields : List (Field TypeExpr)} {kw lb : Token}
    {run : List Token} (hlb : lb.tok = .op .openBrace)
    (hfields : Listed (MemberRun .anywhere R) .semicolon .closeBrace fields run)
    (hc : c.rest = kw :: lb :: run ++ rest) :
    Reads (structType inner) c rest fun t' =>
      t'.mapOffsets forget = (TypeExpr.struct s fields).mapOffsets forget := by
  refine reads_bracedOf (readsItems_members hinner hR) hlb hfields hc
    fun s' fields' c₁ hc₁ hfields' => ?_
  refine Reads.pure hc₁ ?_
  simp only [TypeExpr.mapOffsets, mapOffsetsFields_eq, hfields',
    Span.mapOffsets, forget]

/-- A method is read as a name and a signature. -/
theorem reads_method {n : Ident} {sig : Signature TypeExpr} {s s' : Span} {t : Token}
    {run : List Token} {e : Ending} (hn : IsIdent .anywhere n t)
    (hsig : Sig .anywhere R sig run e) (hc : c.rest = t :: run ++ rest)
    (hstop : e.Stops rest) : Reads (method inner) c rest fun f' =>
      f'.mapOffsets forget
        = (Field.mk [n] (.func s' sig) none s).mapOffsets forget := by
  unfold method methodOf
  refine (reads_here hc).bind fun start c₁ hc₁ _ => ?_
  refine (reads_isIdent hn hc₁).bind fun n' c₂ hc₂ hn' => ?_
  refine (reads_signature hinner hR hsig hc₂ hstop).bind fun sig' c₃ hc₃ hsig' => ?_
  refine (reads_since hc₃).bind fun s'' c₄ hc₄ _ => ?_
  refine Reads.pure hc₄ ?_
  simp only [Field.mapOffsets, List.map_cons, List.map_nil,
    TypeExpr.mapOffsets_func, hn', hsig', Span.mapOffsets, forget]

/-- An element is taken for a method if a parenthesis follows its name, and this
is so only for methods. -/
theorem reads_interfaceElement {f : Field TypeExpr} {run : List Token}
    (h : ElementRun .anywhere R f run) (hc : c.rest = run ++ rest)
    (hrest : Follows .semicolon .closeBrace rest) :
    Reads (interfaceElement inner) c rest
      fun f' => f'.mapOffsets forget = f.mapOffsets forget := by
  unfold interfaceElement announcedElement
  refine (reads_ask Cursor.atMethod hc).bind fun b c₁ hc₁ hb => ?_
  cases h with
  | @method n sig s s' t sigRun e hn hsig _ _ =>
    have hmethod : c.atMethod = true := by
      obtain ⟨hp, -, -⟩ := hsig
      obtain ⟨lp, more, entries, fields', rfl, hlp, -⟩ :=
        hp.entries ignoresSpans_anywhere hR
      exact Cursor.atMethod_method hc hn.1 hlp
    have hstop : e.Stops rest := by
      obtain ⟨u, more, rfl, hu | hu⟩ := hrest
      · exact e.stops_cons hu rfl (by simp) more
      · exact e.stops_cons hu rfl (by simp) more
    rw [hmethod] at hb
    subst hb
    exact reads_method hinner hR hn hsig hc₁ hstop
  | embedded ht _ =>
    have hnext : Cursor.NoTypeNext rest := by
      obtain ⟨u, more, rfl, hu⟩ := hrest
      intro w hw
      cases hw
      rcases hu with hu | hu <;> rw [hu] <;> rfl
    rw [Cursor.atMethod_constraint hR ht hc hnext] at hb
    subst hb
    refine reads_spanned hc₁
      (fun c₂ hc₂ => reads_constraint hinner hR endsConstraint_semicolon
        endsConstraint_closeBrace ht hc₂ hrest)
      fun s' t' c₃ hc₃ ht' => ?_
    refine Reads.pure hc₃ ?_
    simp only [Field.mapOffsets, ht', Span.mapOffsets, forget]

/-- The elements of an interface are read one by one. -/
theorem readsItems_elements :
    ReadsItems (interfaceElement inner) (ElementRun .anywhere R)
      (Field.mapOffsets forget)
      .semicolon .closeBrace where
  head := by
    intro f run h
    have hterm : ∀ {tm part}, TermRun R tm part →
        ∃ first more, part = first :: more ∧ first.tok ≠ .op .closeBrace := by
      intro tm part htm
      cases htm with
      | plain hplain =>
        obtain ⟨first, more, rfl, hfirst⟩ := Inner.starts hR hplain
        refine ⟨first, more, rfl, fun heq => ?_⟩
        rw [heq] at hfirst
        cases hfirst
      | tilde hmark => exact ⟨_, _, rfl, by rw [hmark]; simp⟩
    cases h with
    | method hn => exact ⟨_, _, rfl, by rw [hn.1]; simp⟩
    | embedded ht =>
      cases ht with
      | plain hplain => exact hterm (.plain hplain)
      | union _ hrun =>
        cases hrun with
        | one htm => exact hterm htm
        | cons htm =>
          obtain ⟨first, more, rfl, hfirst⟩ := hterm htm
          exact ⟨first, _, rfl, hfirst⟩
  reads := reads_interfaceElement hinner hR

/-- An interface type ends with its closing brace. -/
theorem reads_interfaceType {s : Span} {elems : List (Field TypeExpr)} {kw lb : Token}
    {run : List Token} (hlb : lb.tok = .op .openBrace)
    (helems : Listed (ElementRun .anywhere R) .semicolon .closeBrace elems run)
    (hc : c.rest = kw :: lb :: run ++ rest) :
    Reads (interfaceType inner) c rest fun t' =>
      t'.mapOffsets forget = (TypeExpr.interface s elems).mapOffsets forget := by
  refine reads_bracedOf (readsItems_elements hinner hR) hlb helems hc
    fun s' elems' c₁ hc₁ helems' => ?_
  refine Reads.pure hc₁ ?_
  simp only [TypeExpr.mapOffsets, mapOffsetsFields_eq, helems',
    Span.mapOffsets, forget]

/-! ## All forms -/

/-- **The form that the first token announces is the form that the
tokens spell.** -/
theorem readsTypes_typeForm : ReadsTypes (typeForm inner) (Form .anywhere R) := by
  intro t run e c rest h hc hstop
  unfold typeForm announcedForm
  cases h with
  | named hn =>
    obtain ⟨first, more, name, rfl, hfirst⟩ := hn.head
    refine (reads_peek hc).bind fun tok c₁ hc₁ htok => ?_
    rw [htok, hfirst]
    exact reads_namedType_named hn hc₁ hstop
  | applied hbase hlb hne hargs _ =>
    obtain ⟨first, more, name, rfl, hfirst⟩ := hbase.head
    refine (reads_peek hc).bind fun tok c₁ hc₁ htok => ?_
    rw [htok, hfirst]
    exact reads_namedType_applied hinner hR hbase hlb hne hargs hc₁
  | pointer hstar helem _ =>
    refine (reads_peek hc).bind fun tok c₁ hc₁ htok => ?_
    rw [htok, hstar]
    exact reads_pointerType hinner helem hc₁ hstop
  | slice hlb hrb helem _ =>
    refine (reads_peek hc).bind fun tok c₁ hc₁ htok => ?_
    rw [htok, hlb]
    exact reads_bracketType_slice hinner hrb helem hc₁ hstop
  | array hlb hlen hrb helem _ =>
    refine (reads_peek hc).bind fun tok c₁ hc₁ htok => ?_
    rw [htok, hlb]
    exact reads_bracketType_array hinner hlen hrb helem hc₁ hstop
  | map hkw hlb hkey hrb hvalue _ =>
    refine (reads_peek hc).bind fun tok c₁ hc₁ htok => ?_
    rw [htok, hkw]
    exact reads_mapType hinner hlb hkey hrb hvalue hc₁ hstop
  | chan hkw hfirst helem _ =>
    refine (reads_peek hc).bind fun tok c₁ hc₁ htok => ?_
    rw [htok, hkw]
    exact reads_chanType_both hinner hfirst helem hc₁ hstop
  | send hkw harrow helem _ =>
    refine (reads_peek hc).bind fun tok c₁ hc₁ htok => ?_
    rw [htok, hkw]
    exact reads_chanType_send hinner harrow helem hc₁ hstop
  | receive harrow hkw helem _ =>
    refine (reads_peek hc).bind fun tok c₁ hc₁ htok => ?_
    rw [htok, harrow]
    exact reads_receiveType hinner hkw helem hc₁ hstop
  | func hkw hsig _ =>
    refine (reads_peek hc).bind fun tok c₁ hc₁ htok => ?_
    rw [htok, hkw]
    exact reads_funcType hinner hR hsig hc₁ hstop
  | struct hkw hlb hfields _ =>
    refine (reads_peek hc).bind fun tok c₁ hc₁ htok => ?_
    rw [htok, hkw]
    exact reads_structType hinner hR hlb hfields hc₁
  | interface hkw hlb helems _ =>
    refine (reads_peek hc).bind fun tok c₁ hc₁ htok => ?_
    rw [htok, hkw]
    exact reads_interfaceType hinner hR hlb helems hc₁
  | paren hlp helem hrp _ =>
    refine (reads_peek hc).bind fun tok c₁ hc₁ htok => ?_
    rw [htok, hlp]
    exact reads_parenType hinner helem hrp hc₁

end Forms

/-- The bound on the depth is not reached, as the type is not deeper than that. -/
theorem readsTypes_typeWithin (depth : Nat) :
    ReadsTypes (typeWithin depth) (SpellsWithin .anywhere depth) := by
  induction depth with
  | zero => intro t run e c rest h; exact h.elim
  | succ depth ih => exact readsTypes_typeForm ih (shaped_spellsWithin depth)

/-- **The parser of types reads what the grammar spells.** The tokens ahead
are enough to count down from, since types are nested no deeper than their
tokens allow. -/
theorem readsTypes_typeExpr : ReadsTypes typeExpr (Spells .anywhere) := by
  intro t run e c rest hspells hc hstop
  obtain ⟨depth, h⟩ := hspells
  have hlen : run.length ≤ c.rest.length := by
    rw [hc, List.length_append]
    omega
  exact readsTypes_typeWithin c.rest.length (h.of_length_le hlen) hc hstop

end Parser

end GoInventory
