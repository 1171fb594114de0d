import GoInventory.Proofs.Syntax.Grammar

/-!
# Nesting in the grammar of types

The types inside a form are spelled by shorter runs than the form itself. So a
form keeps its spelling when `R` is replaced by a relation that contains it on
shorter runs (`Form.mono`), the nesting of a type is bounded by the number of
its tokens (`SpellsWithin.of_length_le`), and `Spells` is a fixed point of the
rules (`spells_iff`).
-/

namespace GoInventory.Grammar

variable {F : Placement} {R R' : TypeExpr → List Token → Ending → Prop} {n : Nat}

section Lists

variable {α : Type} {item item' : α → List Token → Prop}

/-- The items of a list are shorter than what encloses the list. -/
theorem Listed.mono {separator close : Operator} {as : List α} {run : List Token}
    (h : ∀ a part, part.length < n → item a part → item' a part)
    (hrun : Listed item separator close as run) (hn : run.length ≤ n) :
    Listed item' separator close as run := by
  induction hrun with
  | none ht => exact .none ht
  | last ha ht =>
    simp only [List.length_append, List.length_cons] at hn
    exact .last (h _ _ (by omega) ha) ht
  | cons ha hsep _ ih =>
    simp only [List.length_append, List.length_cons] at hn
    exact .cons (h _ _ (by omega) ha) hsep (ih (by omega))

/-- What holds of all tokens of a list holds of the tokens of its items. -/
theorem Listed.forall_mem {separator close : Operator} {as : List α}
    {run : List Token} {P : Token → Prop} (h : Listed item separator close as run)
    (hP : ∀ t ∈ run, P t) :
    Listed (fun a part => item a part ∧ ∀ t ∈ part, P t) separator close as run := by
  induction h with
  | none ht => exact .none ht
  | last ha ht =>
    rw [List.forall_mem_append] at hP
    exact .last ⟨ha, hP.1⟩ ht
  | cons ha hsep _ ih =>
    rw [List.forall_mem_append, List.forall_mem_cons] at hP
    exact .cons ⟨ha, hP.1⟩ hsep (ih hP.2.2)

/-- Items that are only separated are no longer than their list. -/
theorem Separated.mono {separator : Operator} {as : List α} {run : List Token}
    (h : ∀ a part, part.length < n → item a part → item' a part)
    (hrun : Separated item separator as run) (hn : run.length < n) :
    Separated item' separator as run := by
  induction hrun with
  | one ha => exact .one (h _ _ hn ha)
  | cons ha hsep _ ih =>
    simp only [List.length_append, List.length_cons] at hn
    exact .cons (h _ _ (by omega) ha) hsep (ih (by omega))

end Lists

section Forms

variable (h : ∀ t run e, run.length < n → R t run e → R' t run e)

include h

/-- What is inside a form is shorter than the form. -/
theorem Inner.mono {t : TypeExpr} {run : List Token} (hn : run.length < n) :
    Inner R t run → Inner R' t run := by
  intro hinner
  obtain ⟨e, ht⟩ := hinner
  exact ⟨e, h t run e hn ht⟩

theorem ParamType.mono {t : TypeExpr} {run : List Token} (hn : run.length < n)
    (ht : ParamType F R t run) : ParamType F R' t run := by
  cases ht with
  | plain ht => exact .plain (Inner.mono h hn ht)
  | variadic hdots ht hs =>
    rw [List.length_cons] at hn
    exact .variadic hdots (Inner.mono h (by omega) ht) hs

theorem UnnamedParam.mono {f : Field TypeExpr} {run : List Token}
    (hn : run.length < n) (hf : UnnamedParam F R f run) :
    UnnamedParam F R' f run := by
  obtain ⟨ht, hs⟩ := hf
  exact .mk (ht.mono h hn) hs

theorem NamedParams.mono {f : Field TypeExpr} {run : List Token} (hn : run.length < n)
    (hf : NamedParams F R f run) : NamedParams F R' f run := by
  obtain ⟨hnames, ht, hs⟩ := hf
  rw [List.length_append] at hn
  exact .mk hnames (ht.mono h (by omega)) hs

/-- The types of parameters are shorter than the list with its parentheses. -/
theorem Params.mono {fields : List (Field TypeExpr)} {run : List Token}
    (hn : run.length ≤ n) (hp : Params F R fields run) : Params F R' fields run := by
  cases hp with
  | unnamed hlp hlist =>
    rw [List.length_cons] at hn
    exact .unnamed hlp
      (hlist.mono (fun _ _ hlt => UnnamedParam.mono h hlt) (by omega))
  | named hlp hlist =>
    rw [List.length_cons] at hn
    exact .named hlp (hlist.mono (fun _ _ hlt => NamedParams.mono h hlt) (by omega))

/-- Results have no token of their own, if they are one bare type. -/
theorem Results.mono {fields : List (Field TypeExpr)} {run : List Token} {e : Ending}
    (hn : run.length < n) (hr : Results F R fields run e) :
    Results F R' fields run e := by
  cases hr with
  | none => exact .none
  | listed hp => exact .listed (hp.mono h (Nat.le_of_lt hn))
  | bare hfirst ht hs => exact .bare hfirst (h _ _ _ hn ht) hs

/-- A signature is longer than the types in it, as its parentheses are its own. -/
theorem Sig.mono {sig : Signature TypeExpr} {run : List Token} {e : Ending}
    (hn : run.length ≤ n) (hsig : Sig F R sig run e) : Sig F R' sig run e := by
  obtain ⟨hp, hr, hs⟩ := hsig
  rw [List.length_append] at hn
  refine .mk (hp.mono h (by omega)) (hr.mono h ?_) hs
  -- the parentheses of the parameters stand before the results
  cases hp <;> rw [List.length_cons] at hn <;> omega

theorem TermRun.mono {t : Term TypeExpr} {run : List Token} (hn : run.length < n)
    (ht : TermRun R t run) : TermRun R' t run := by
  cases ht with
  | plain ht => exact .plain (Inner.mono h hn ht)
  | tilde hmark ht =>
    rw [List.length_cons] at hn
    exact .tilde hmark (Inner.mono h (by omega) ht)

theorem Constraint.mono {t : TypeExpr} {run : List Token} (hn : run.length < n)
    (ht : Constraint F R t run) : Constraint F R' t run := by
  cases ht with
  | plain ht => exact .plain (Inner.mono h hn ht)
  | union hterms hrun hs =>
    exact .union hterms (hrun.mono (fun _ _ hlt => TermRun.mono h hlt) hn) hs

theorem MemberRun.mono {f : Field TypeExpr} {run : List Token} (hn : run.length < n)
    (hf : MemberRun F R f run) : MemberRun F R' f run := by
  cases hf with
  | named hnames ht htag hs =>
    simp only [List.length_append] at hn
    exact .named hnames (Inner.mono h (by omega) ht) htag hs
  | embedded hfirst ht htag hs =>
    rw [List.length_append] at hn
    exact .embedded hfirst (Inner.mono h (by omega) ht) htag hs

/-- A method is longer than the types in its signature. -/
theorem ElementRun.mono {f : Field TypeExpr} {run : List Token} (hn : run.length < n)
    (hf : ElementRun F R f run) : ElementRun F R' f run := by
  cases hf with
  | method hname hsig hs' hs =>
    rw [List.length_cons] at hn
    exact .method hname (hsig.mono h (by omega)) hs' hs
  | embedded ht hs => exact .embedded (ht.mono h hn) hs

/-- The rules use `R` on runs that are shorter than the run of the form. -/
theorem Form.mono {t : TypeExpr} {run : List Token} {e : Ending} (hn : run.length ≤ n)
    (ht : Form F R t run e) : Form F R' t run e := by
  cases ht with
  | named hname => exact .named hname
  | applied hbase hlb hne hargs hs =>
    simp only [List.length_append, List.length_cons] at hn
    exact .applied hbase hlb hne
      (hargs.mono (fun _ _ hlt => Inner.mono h hlt) (by omega)) hs
  | pointer hstar helem hs =>
    rw [List.length_cons] at hn
    exact .pointer hstar (h _ _ _ (by omega) helem) hs
  | slice hlb hrb helem hs =>
    simp only [List.length_cons] at hn
    exact .slice hlb hrb (h _ _ _ (by omega) helem) hs
  | array hlb hlen hrb helem hs =>
    simp only [List.length_append, List.length_cons] at hn
    exact .array hlb hlen hrb (h _ _ _ (by omega) helem) hs
  | map hkw hlb hkey hrb hvalue hs =>
    simp only [List.length_append, List.length_cons] at hn
    exact .map hkw hlb (Inner.mono h (by omega) hkey) hrb
      (h _ _ _ (by omega) hvalue) hs
  | chan hkw hfirst helem hs =>
    rw [List.length_cons] at hn
    exact .chan hkw hfirst (h _ _ _ (by omega) helem) hs
  | send hkw harrow helem hs =>
    simp only [List.length_cons] at hn
    exact .send hkw harrow (h _ _ _ (by omega) helem) hs
  | receive harrow hkw helem hs =>
    simp only [List.length_cons] at hn
    exact .receive harrow hkw (h _ _ _ (by omega) helem) hs
  | func hkw hsig hs =>
    rw [List.length_cons] at hn
    exact .func hkw (hsig.mono h (by omega)) hs
  | struct hkw hlb hfields hs =>
    simp only [List.length_cons] at hn
    exact .struct hkw hlb
      (hfields.mono (fun _ _ hlt => MemberRun.mono h hlt) (by omega)) hs
  | interface hkw hlb helems hs =>
    simp only [List.length_cons] at hn
    exact .interface hkw hlb
      (helems.mono (fun _ _ hlt => ElementRun.mono h hlt) (by omega)) hs
  | paren hlp helem hrp hs =>
    simp only [List.length_append, List.length_cons] at hn
    exact .paren hlp (Inner.mono h (by omega) helem) hrp hs

end Forms

/-- No form is spelled by an empty run. -/
theorem Form.length_pos {t : TypeExpr} {run : List Token} {e : Ending}
    (h : Form F R t run e) : 0 < run.length := by
  cases h with
  | named hname => cases hname <;> simp
  | applied => simp only [List.length_append, List.length_cons]; omega
  | _ => simp

/-- Types are nested no deeper than the tokens of the whole allow. -/
theorem SpellsWithin.of_length_le :
    ∀ {depth : Nat} {t : TypeExpr} {run : List Token} {e : Ending} {m : Nat},
      SpellsWithin F depth t run e → run.length ≤ m → SpellsWithin F m t run e := by
  intro depth
  induction depth with
  | zero => intro t run e m h _; exact h.elim
  | succ depth ih =>
    intro t run e m h hm
    have hpos := Form.length_pos h
    cases m with
    | zero => omega
    | succ m =>
      refine Form.mono (n := run.length) (fun t' run' e' hlt ht => ?_)
        (Nat.le_refl _) h
      exact ih ht (by omega)

/-- **The rules define the spelling of types.** -/
theorem spells_iff {t : TypeExpr} {run : List Token} {e : Ending} :
    Spells F t run e ↔ Form F (Spells F) t run e := by
  constructor
  · intro hspells
    obtain ⟨depth, h⟩ := hspells
    cases depth with
    | zero => exact h.elim
    | succ depth =>
      exact Form.mono (n := run.length) (fun _ _ _ _ ht => ⟨depth, ht⟩)
        (Nat.le_refl _) h
  · intro h
    refine ⟨run.length + 1, Form.mono (n := run.length) (fun t' run' e' hlt ht => ?_)
      (Nat.le_refl _) h⟩
    obtain ⟨depth, ht⟩ := ht
    exact ht.of_length_le (Nat.le_of_lt hlt)

/-! ## Runs are not empty -/

/-- A type takes at least one token. -/
theorem Inner.ne_nil {t : TypeExpr} {run : List Token} (h : Inner (Spells F) t run) :
    run ≠ [] := by
  obtain ⟨e, h⟩ := h
  exact List.ne_nil_of_length_pos (spells_iff.mp h).length_pos

theorem ParamType.ne_nil {t : TypeExpr} {run : List Token}
    (h : ParamType F (Spells F) t run) : run ≠ [] := by
  cases h with
  | plain hplain => exact hplain.ne_nil
  | variadic => exact List.cons_ne_nil _ _

/-- Parameters take their parentheses. -/
theorem Params.ne_nil {fields : List (Field TypeExpr)} {run : List Token}
    (h : Params F R fields run) : run ≠ [] := by
  cases h <;> exact List.cons_ne_nil _ _

theorem TermRun.ne_nil {tm : Term TypeExpr} {run : List Token}
    (h : TermRun (Spells F) tm run) : run ≠ [] := by
  cases h with
  | plain hplain => exact hplain.ne_nil
  | tilde => exact List.cons_ne_nil _ _

theorem IdentRun.ne_nil {n : Ident} {run : List Token} (h : IdentRun F n run) :
    run ≠ [] := by
  obtain ⟨t, rfl, -⟩ := h
  exact List.cons_ne_nil _ _

theorem Separated.run_ne_nil {α : Type} {item : α → List Token → Prop}
    {separator : Operator} {as : List α} {run : List Token}
    (h : Separated item separator as run)
    (hitem : ∀ {a part}, item a part → part ≠ []) : run ≠ [] := by
  cases h with
  | one ha => exact hitem ha
  | cons ha => exact List.append_ne_nil_of_left_ne_nil (hitem ha) _

end GoInventory.Grammar
