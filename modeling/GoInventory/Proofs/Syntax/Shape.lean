import GoInventory.Proofs.Syntax.Nesting

/-!
# The shape of a spelled type

The parser tells a name from a type, and an array from type arguments, by what
it sees ahead. What it can see follows from the grammar: a spelled type starts
with a token that types start with, its brackets are balanced, behind a leading
name come nothing, a dot or type arguments (`NameTail`), and behind a leading
bracket come a length, the closing bracket and another type (`BracketTail`).
`Shaped` collects these facts of a relation `R`; the rules carry them from the
types inside a form to the form (`Shaped.form`), so that `Spells` has them.
-/

namespace GoInventory.Grammar

/-- The run starts with a token that a type can start with. -/
def Starts (run : List Token) : Prop :=
  ∃ first more, run = first :: more ∧ first.tok.startsType = true

/-- What can follow the name that a type starts with. -/
def NameTail (more : List Token) : Prop :=
  more = [] ∨
  (∃ dot behind, more = dot :: behind ∧ dot.tok = .op .dot) ∨
  ∃ lb args rb, more = lb :: (args ++ [rb]) ∧ lb.tok = .op .openBracket ∧
    rb.tok = .op .closeBracket ∧ Balanced args ∧ Starts args

/-- What can follow the opening bracket that a type starts with. -/
def BracketTail (more : List Token) : Prop :=
  (∃ t behind, more = t :: behind ∧
    (t.tok = .op .closeBracket ∨ t.tok = .op .ellipsis)) ∨
  ∃ length rb elem, more = length ++ rb :: elem ∧ rb.tok = .op .closeBracket ∧
    Balanced length ∧
    Starts elem

/-- What the parser relies on when it looks ahead into a type. -/
structure Shaped (R : TypeExpr → List Token → Ending → Prop) : Prop where
  starts : ∀ {t run e}, R t run e → Starts run
  balanced : ∀ {t run e}, R t run e → Balanced run
  nameTail : ∀ {t first more e} {name : String}, R t (first :: more) e →
    first.tok = .ident name → NameTail more
  bracketTail : ∀ {t first more e}, R t (first :: more) e →
    first.tok = .op .openBracket →
    BracketTail more
  single : ∀ {t first e} {name : String}, R t [first] e → first.tok = .ident name →
    ∃ n : Ident, t = .named (.plain n) ∧ n.name = name

/-- How a run starts is told by its first token. -/
theorem Starts.append {run : List Token} (h : Starts run) (rest : List Token) :
    Starts (run ++ rest) := by
  obtain ⟨first, more, rfl, hfirst⟩ := h
  exact ⟨first, more ++ rest, rfl, hfirst⟩

/-- A token that is known to be no bracket leaves a run balanced. -/
theorem balanced_cons_of_eq {t : Token} {tok : Tok} {run : List Token}
    (ht : t.tok = tok) (ho : tok.isOpening = false) (hc : tok.isClosing = false)
    (h : Balanced run) : Balanced (t :: run) :=
  .cons (by rw [ht]; exact ho) (by rw [ht]; exact hc) h

section Lists

variable {α : Type} {item : α → List Token → Prop} {separator close : Operator}

/-- A list of balanced items is balanced up to the operator that closes it. -/
theorem Listed.balanced {as : List α} {run : List Token}
    (hitem : ∀ a part, item a part → Balanced part)
    (ho : (Tok.op separator).isOpening = false)
    (hc : (Tok.op separator).isClosing = false)
    (h : Listed item separator close as run) :
    ∃ body t, run = body ++ [t] ∧ t.tok = .op close ∧ Balanced body := by
  induction h with
  | @none t ht => exact ⟨[], t, rfl, ht, .nil⟩
  | @last a part t ha ht => exact ⟨part, t, rfl, ht, hitem a part ha⟩
  | @cons a as part more sep ha hsep _ ih =>
    obtain ⟨body, t, rfl, ht, hbody⟩ := ih
    refine ⟨part ++ sep :: body, t, by simp, ht, ?_⟩
    exact (hitem a part ha).append (balanced_cons_of_eq hsep ho hc hbody)

/-- A list between an opening and a closing bracket is balanced. -/
theorem Listed.balanced_enclosed {o : Operator} {as : List α} {lb : Token}
    {run : List Token} (hitem : ∀ a part, item a part → Balanced part)
    (hlb : lb.tok = .op o) (h : Listed item separator close as run)
    (ho : (Tok.op separator).isOpening = false)
    (hc : (Tok.op separator).isClosing = false) (hopen : (Tok.op o).isOpening = true)
    (hclose : (Tok.op close).isClosing = true) : Balanced (lb :: run) := by
  obtain ⟨body, t, rfl, ht, hbody⟩ := h.balanced hitem ho hc
  exact .enclose (by rw [hlb]; exact hopen) (by rw [ht]; exact hclose) hbody

/-- A list that is not empty starts as its first item does. -/
theorem Listed.starts {as : List α} {run : List Token}
    (hitem : ∀ a part, item a part → Starts part)
    (h : Listed item separator close as run) (hne : as ≠ []) : Starts run := by
  cases h with
  | none => exact absurd rfl hne
  | last ha => exact (hitem _ _ ha).append _
  | cons ha => exact (hitem _ _ ha).append _

/-- Balanced items with a separator that is no bracket are balanced together. -/
theorem Separated.balanced {as : List α} {run : List Token}
    (hitem : ∀ a part, item a part → Balanced part)
    (ho : (Tok.op separator).isOpening = false)
    (hc : (Tok.op separator).isClosing = false) (h : Separated item separator as run) :
    Balanced run := by
  induction h with
  | one ha => exact hitem _ _ ha
  | cons ha hsep _ ih =>
    exact (hitem _ _ ha).append (balanced_cons_of_eq hsep ho hc ih)

end Lists

section Balance

variable {F : Placement} {R : TypeExpr → List Token → Ending → Prop}

theorem IdentRun.balanced {n : Ident} {run : List Token} (h : IdentRun F n run) :
    Balanced run := by
  obtain ⟨t, rfl, ht, -⟩ := h
  exact balanced_cons_of_eq ht rfl rfl .nil

/-- A tag has no brackets. -/
theorem Tag.balanced {tag : Option StringLit} {run : List Token} (h : Tag F tag run) :
    Balanced run := by
  cases h with
  | none => exact .nil
  | some hlit => cases hlit <;> exact balanced_cons_of_eq ‹_› rfl rfl .nil

/-- A name has no brackets. -/
theorem Name.balanced {n : TypeName} {run : List Token} {e : Ending}
    (h : Name F n run e) : Balanced run := by
  cases h with
  | plain ht => exact balanced_cons_of_eq ht.1 rfl rfl .nil
  | qualified ht hdot hu _ =>
    exact balanced_cons_of_eq ht.1 rfl rfl
      (balanced_cons_of_eq hdot rfl rfl (balanced_cons_of_eq hu.1 rfl rfl .nil))

/-- The length of an array is balanced, understood or not. -/
theorem Bound.balanced {length : ArrayLength} {run : List Token}
    (h : Bound F length run) : Balanced run := by
  cases h with
  | ellipsis hdots => exact balanced_cons_of_eq hdots rfl rfl .nil
  | expr _ hrun _ => exact hrun

/-- What stands between the brackets of an array does not start with
the closing one. -/
theorem Bound.head_ne {length : ArrayLength} {run : List Token}
    (h : Bound F length run) :
    ∃ first more, run = first :: more ∧ first.tok ≠ .op .closeBracket := by
  cases h with
  | ellipsis hdots => exact ⟨_, _, rfl, by rw [hdots]; simp⟩
  | expr _ hbal _ =>
    refine ⟨_, _, rfl, fun heq => ?_⟩
    unfold Balanced at hbal
    rw [depthAfter?_closing_zero (by rw [heq]; rfl)] at hbal
    cases hbal

variable (hR : ∀ {t run e}, R t run e → Balanced run)

include hR

theorem Inner.balanced {t : TypeExpr} {run : List Token} :
    Inner R t run → Balanced run := by
  intro hinner
  obtain ⟨e, ht⟩ := hinner
  exact hR ht

/-- An ellipsis is no bracket. -/
theorem ParamType.balanced {t : TypeExpr} {run : List Token} (h : ParamType F R t run) :
    Balanced run := by
  cases h with
  | plain ht => exact Inner.balanced hR ht
  | variadic hdots ht _ =>
    exact balanced_cons_of_eq hdots rfl rfl (Inner.balanced hR ht)

theorem UnnamedParam.balanced {f : Field TypeExpr} {run : List Token}
    (h : UnnamedParam F R f run) : Balanced run := by
  obtain ⟨ht, -⟩ := h
  exact ht.balanced hR

/-- Names and a balanced type are balanced. -/
theorem NamedParams.balanced {f : Field TypeExpr} {run : List Token}
    (h : NamedParams F R f run) : Balanced run := by
  obtain ⟨hnames, ht, -⟩ := h
  exact (hnames.balanced (fun _ _ => IdentRun.balanced) rfl rfl).append
    (ht.balanced hR)

/-- Parameters are balanced within their parentheses. -/
theorem Params.balanced {fields : List (Field TypeExpr)} {run : List Token}
    (h : Params F R fields run) : Balanced run := by
  cases h with
  | unnamed hlp hlist =>
    exact hlist.balanced_enclosed (fun _ _ => UnnamedParam.balanced hR)
      hlp rfl rfl rfl rfl
  | named hlp hlist =>
    exact hlist.balanced_enclosed (fun _ _ => NamedParams.balanced hR)
      hlp rfl rfl rfl rfl

/-- Parameters and results are balanced. -/
theorem Sig.balanced {sig : Signature TypeExpr} {run : List Token} {e : Ending}
    (h : Sig F R sig run e) : Balanced run := by
  obtain ⟨hp, hr, -⟩ := h
  refine (hp.balanced hR).append ?_
  cases hr with
  | none => exact .nil
  | listed hp => exact hp.balanced hR
  | bare _ ht _ => exact hR ht

/-- The bars of a union are no brackets. -/
theorem Constraint.balanced {t : TypeExpr} {run : List Token}
    (h : Constraint F R t run) : Balanced run := by
  cases h with
  | plain ht => exact Inner.balanced hR ht
  | union _ hrun _ =>
    refine hrun.balanced (fun term part hterm => ?_) rfl rfl
    cases hterm with
    | plain ht => exact Inner.balanced hR ht
    | tilde hmark ht => exact balanced_cons_of_eq hmark rfl rfl (Inner.balanced hR ht)

/-- A member is balanced. -/
theorem MemberRun.balanced {f : Field TypeExpr} {run : List Token}
    (h : MemberRun F R f run) : Balanced run := by
  cases h with
  | named hnames ht htag _ =>
    have hn := hnames.balanced (fun _ _ => IdentRun.balanced) rfl rfl
    exact (hn.append (Inner.balanced hR ht)).append htag.balanced
  | embedded _ ht htag _ => exact (Inner.balanced hR ht).append htag.balanced

/-- An element of an interface is balanced. -/
theorem ElementRun.balanced {f : Field TypeExpr} {run : List Token}
    (h : ElementRun F R f run) : Balanced run := by
  cases h with
  | method hname hsig _ _ =>
    exact balanced_cons_of_eq hname.1 rfl rfl (hsig.balanced hR)
  | embedded ht _ => exact ht.balanced hR

/-- **Every form of type is balanced**, if the types in it are. -/
theorem Form.balanced {t : TypeExpr} {run : List Token} {e : Ending}
    (h : Form F R t run e) : Balanced run := by
  cases h with
  | named hname => exact hname.balanced
  | applied hbase hlb _ hargs _ =>
    exact hbase.balanced.append
      (hargs.balanced_enclosed (fun _ _ => Inner.balanced hR) hlb rfl rfl rfl rfl)
  | pointer hstar helem _ => exact balanced_cons_of_eq hstar rfl rfl (hR helem)
  | @slice s elem lb rb run e hlb hrb helem _ =>
    have hbrackets : Balanced (lb :: ([] ++ [rb])) :=
      .enclose (by rw [hlb]; rfl) (by rw [hrb]; rfl) .nil
    exact hbrackets.append (hR helem)
  | @array s length elem lb rb lengthRun run e hlb hlen hrb helem _ =>
    have hbrackets : Balanced (lb :: (lengthRun ++ [rb])) :=
      .enclose (by rw [hlb]; rfl) (by rw [hrb]; rfl) hlen.balanced
    simpa using hbrackets.append (hR helem)
  | @map s key value kw lb rb keyRun run e hkw hlb hkey hrb hvalue _ =>
    have hbrackets : Balanced (lb :: (keyRun ++ [rb])) :=
      .enclose (by rw [hlb]; rfl) (by rw [hrb]; rfl) (Inner.balanced hR hkey)
    simpa using balanced_cons_of_eq hkw rfl rfl (hbrackets.append (hR hvalue))
  | chan hkw _ helem _ => exact balanced_cons_of_eq hkw rfl rfl (hR helem)
  | send hkw harrow helem _ =>
    exact balanced_cons_of_eq hkw rfl rfl
      (balanced_cons_of_eq harrow rfl rfl (hR helem))
  | receive harrow hkw helem _ =>
    exact balanced_cons_of_eq harrow rfl rfl
      (balanced_cons_of_eq hkw rfl rfl (hR helem))
  | func hkw hsig _ => exact balanced_cons_of_eq hkw rfl rfl (hsig.balanced hR)
  | struct hkw hlb hfields _ =>
    exact balanced_cons_of_eq hkw rfl rfl
      (hfields.balanced_enclosed (fun _ _ => MemberRun.balanced hR)
        hlb rfl rfl rfl rfl)
  | interface hkw hlb helems _ =>
    exact balanced_cons_of_eq hkw rfl rfl
      (helems.balanced_enclosed (fun _ _ => ElementRun.balanced hR)
        hlb rfl rfl rfl rfl)
  | paren hlp helem hrp _ =>
    exact .enclose (by rw [hlp]; rfl) (by rw [hrp]; rfl) (Inner.balanced hR helem)

end Balance

section Shapes

variable {F : Placement} {R : TypeExpr → List Token → Ending → Prop}

/-- A name starts with an identifier. -/
theorem Name.head {n : TypeName} {run : List Token} {e : Ending} (h : Name F n run e) :
    ∃ first more name, run = first :: more ∧ first.tok = .ident name := by
  cases h with
  | plain ht => exact ⟨_, _, _, rfl, ht.1⟩
  | qualified ht _ _ _ => exact ⟨_, _, _, rfl, ht.1⟩

/-- The token that a type of this form starts with. -/
def AnnouncedBy : TypeExpr → Tok → Prop
  | .named _, tok | .applied _ _ _, tok => ∃ name, tok = .ident name
  | .pointer _ _, tok => tok = .op .star
  | .slice _ _, tok | .array _ _ _, tok => tok = .op .openBracket
  | .map _ _ _, tok => tok = .keyword .map
  | .chan _ .receive _, tok => tok = .op .arrow
  | .chan _ _ _, tok => tok = .keyword .chan
  | .func _ _, tok => tok = .keyword .func
  | .struct _ _, tok => tok = .keyword .struct
  | .interface _ _, tok => tok = .keyword .interface
  | .paren _ _, tok => tok = .op .openParen
  | .variadic _ _, _ | .union _ _, _ => False

/-- Every form starts with its own token. -/
theorem Form.announced {t : TypeExpr} {run : List Token} {e : Ending}
    (h : Form F R t run e) :
    ∃ first more, run = first :: more ∧ AnnouncedBy t first.tok := by
  cases h with
  | named hname =>
    obtain ⟨first, more, name, rfl, hfirst⟩ := hname.head
    exact ⟨first, more, rfl, name, hfirst⟩
  | applied hbase _ _ _ _ =>
    obtain ⟨first, more, name, rfl, hfirst⟩ := hbase.head
    exact ⟨first, _, rfl, name, hfirst⟩
  | pointer hstar _ _ => exact ⟨_, _, rfl, hstar⟩
  | slice hlb _ _ _ => exact ⟨_, _, rfl, hlb⟩
  | array hlb _ _ _ _ => exact ⟨_, _, rfl, hlb⟩
  | map hkw _ _ _ _ _ => exact ⟨_, _, rfl, hkw⟩
  | chan hkw _ _ _ => exact ⟨_, _, rfl, hkw⟩
  | send hkw _ _ _ => exact ⟨_, _, rfl, hkw⟩
  | receive harrow _ _ _ => exact ⟨_, _, rfl, harrow⟩
  | func hkw _ _ => exact ⟨_, _, rfl, hkw⟩
  | struct hkw _ _ _ => exact ⟨_, _, rfl, hkw⟩
  | interface hkw _ _ _ => exact ⟨_, _, rfl, hkw⟩
  | paren hlp _ _ _ => exact ⟨_, _, rfl, hlp⟩

/-- A form of type is announced by its first token. -/
theorem Form.announcedBy_head {t : TypeExpr} {first : Token} {more : List Token}
    {e : Ending} (h : Form F R t (first :: more) e) : AnnouncedBy t first.tok := by
  obtain ⟨first', more', hrun, hfirst⟩ := h.announced
  cases hrun
  exact hfirst

/-- What announces a type is a token that a type can start with. -/
theorem startsType_of_announcedBy {t : TypeExpr} {tok : Tok} (h : AnnouncedBy t tok) :
    tok.startsType = true := by
  cases t with
  | named | applied =>
    obtain ⟨name, rfl⟩ := h
    rfl
  | chan s dir elem => cases dir <;> cases h <;> rfl
  | variadic | union => exact h.elim
  | _ =>
    cases h
    rfl

/-- Only names and their applications start with a name. -/
theorem eq_of_announcedBy_ident {t : TypeExpr} {name : String}
    (h : AnnouncedBy t (.ident name)) :
    (∃ n, t = .named n) ∨ ∃ s base args, t = .applied s base args := by
  cases t with
  | named n => exact Or.inl ⟨n, rfl⟩
  | applied s base args => exact Or.inr ⟨s, base, args, rfl⟩
  | chan s dir elem => cases dir <;> cases h
  | _ => cases h

/-- Only a channel that is received from starts with an arrow. -/
theorem eq_of_announcedBy_arrow {t : TypeExpr} (h : AnnouncedBy t (.op .arrow)) :
    ∃ s elem, t = .chan s .receive elem := by
  cases t with
  | named | applied =>
    obtain ⟨name, heq⟩ := h
    cases heq
  | chan s dir elem =>
    cases dir with
    | receive => exact ⟨s, elem, rfl⟩
    | both => cases h
    | send => cases h
  | _ => cases h

/-- Only slices and arrays start with a bracket. -/
theorem eq_of_announcedBy_openBracket {t : TypeExpr}
    (h : AnnouncedBy t (.op .openBracket)) :
    (∃ s elem, t = .slice s elem) ∨ ∃ s length elem, t = .array s length elem := by
  cases t with
  | named | applied =>
    obtain ⟨name, heq⟩ := h
    cases heq
  | chan s dir elem => cases dir <;> cases h
  | slice s elem => exact Or.inl ⟨s, elem, rfl⟩
  | array s length elem => exact Or.inr ⟨s, length, elem, rfl⟩
  | _ => cases h

/-- Only a type in parentheses starts with one. -/
theorem eq_of_announcedBy_openParen {t : TypeExpr}
    (h : AnnouncedBy t (.op .openParen)) : ∃ s elem, t = .paren s elem := by
  cases t with
  | named | applied =>
    obtain ⟨name, heq⟩ := h
    cases heq
  | chan s dir elem => cases dir <;> cases h
  | paren s elem => exact ⟨s, elem, rfl⟩
  | _ => cases h

/-- So every form of type starts with such a token. -/
theorem Form.starts {t : TypeExpr} {run : List Token} {e : Ending}
    (h : Form F R t run e) : Starts run := by
  obtain ⟨first, more, rfl, hfirst⟩ := h.announced
  exact ⟨first, more, rfl, startsType_of_announcedBy hfirst⟩

/-- A type inside a form starts like a type. -/
theorem Inner.starts (hR : Shaped R) {t : TypeExpr} {run : List Token} :
    Inner R t run → Starts run := by
  intro hinner
  obtain ⟨e, ht⟩ := hinner
  exact hR.starts ht

/-- What follows the name that a form starts with. -/
theorem Form.nameTail (hR : Shaped R) {t : TypeExpr} {first : Token}
    {more : List Token} {e : Ending} {name : String}
    (h : Form F R t (first :: more) e) (hfirst : first.tok = .ident name) :
    NameTail more := by
  have hannounced := h.announcedBy_head
  rw [hfirst] at hannounced
  generalize hrun : first :: more = run at h
  rcases eq_of_announcedBy_ident hannounced with ⟨n, rfl⟩ | ⟨s, base, args, rfl⟩
  · cases h with
    | named hname =>
      cases hname with
      | plain => cases hrun; exact Or.inl rfl
      | qualified _ hdot _ _ => cases hrun; exact Or.inr (Or.inl ⟨_, _, rfl, hdot⟩)
  · cases h with
    | applied hbase hlb hne hargs _ =>
      cases hbase with
      | plain =>
        cases hrun
        obtain ⟨body, rb, rfl, hrb, hbody⟩ :=
          hargs.balanced (fun _ _ => Inner.balanced hR.balanced) rfl rfl
        refine Or.inr (Or.inr ⟨_, body, rb, rfl, hlb, hrb, hbody, ?_⟩)
        -- the first argument stands before the closing bracket
        obtain ⟨t', more', heq, hstart⟩ :=
          hargs.starts (fun _ _ => Inner.starts hR) hne
        cases body with
        | nil =>
          cases heq
          rw [hrb] at hstart
          cases hstart
        | cons u body =>
          cases heq
          exact ⟨_, _, rfl, hstart⟩
      | qualified _ hdot _ _ => cases hrun; exact Or.inr (Or.inl ⟨_, _, rfl, hdot⟩)

/-- What follows the bracket that a form starts with. -/
theorem Form.bracketTail (hR : Shaped R) {t : TypeExpr} {first : Token}
    {more : List Token} {e : Ending} (h : Form F R t (first :: more) e)
    (hfirst : first.tok = .op .openBracket) : BracketTail more := by
  have hannounced := h.announcedBy_head
  rw [hfirst] at hannounced
  generalize hrun : first :: more = run at h
  rcases eq_of_announcedBy_openBracket hannounced with ⟨s, elem, rfl⟩
    | ⟨s, length, elem, rfl⟩
  · cases h with
    | slice _ hrb _ _ => cases hrun; exact Or.inl ⟨_, _, rfl, Or.inl hrb⟩
  · cases h with
    | array _ hlen hrb helem _ =>
      cases hrun
      cases hlen with
      | ellipsis hdots => exact Or.inl ⟨_, _, rfl, Or.inr hdots⟩
      | expr _ hbal _ => exact Or.inr ⟨_, _, _, rfl, hrb, hbal, hR.starts helem⟩

/-- Of the forms, only a plain name is one token that is a name. -/
theorem Form.single {t : TypeExpr} {first : Token} {e : Ending} {name : String}
    (h : Form F R t [first] e) (hfirst : first.tok = .ident name) :
    ∃ n : Ident, t = .named (.plain n) ∧ n.name = name := by
  have hannounced := h.announcedBy_head
  rw [hfirst] at hannounced
  generalize hrun : [first] = run at h
  rcases eq_of_announcedBy_ident hannounced with ⟨n, rfl⟩ | ⟨s, base, args, rfl⟩
  · cases h with
    | named hname =>
      cases hname with
      | plain ht =>
        cases hrun
        rw [ht.1, Tok.ident.injEq] at hfirst
        exact ⟨_, rfl, hfirst⟩
      | qualified => cases hrun
  · cases h with
    | applied hbase => cases hbase <;> cases hrun

/-- A form has the shape that the types inside it have. -/
theorem Shaped.form (hR : Shaped R) : Shaped (Form F R) where
  starts := Form.starts
  balanced := Form.balanced hR.balanced
  nameTail := Form.nameTail hR
  bracketTail := Form.bracketTail hR
  single := Form.single

/-- What the parser relies on is true of types of any depth. -/
theorem shaped_spellsWithin (depth : Nat) : Shaped (SpellsWithin F depth) := by
  induction depth with
  | zero =>
    exact ⟨fun h => h.elim, fun h => h.elim, fun h => h.elim, fun h => h.elim,
      fun h => h.elim⟩
  | succ depth ih => exact ih.form

/-- **What the parser relies on when it looks ahead is true of all types.** -/
theorem shaped_spells : Shaped (Spells F) where
  starts := fun ⟨depth, h⟩ => (shaped_spellsWithin depth).starts h
  balanced := fun ⟨depth, h⟩ => (shaped_spellsWithin depth).balanced h
  nameTail := fun ⟨depth, h⟩ => (shaped_spellsWithin depth).nameTail h
  bracketTail := fun ⟨depth, h⟩ => (shaped_spellsWithin depth).bracketTail h
  single := fun ⟨depth, h⟩ => (shaped_spellsWithin depth).single h

end Shapes

end GoInventory.Grammar
