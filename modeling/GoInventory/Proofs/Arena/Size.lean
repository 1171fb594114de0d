import GoInventory.Proofs.Arena.Store
import GoInventory.Proofs.Syntax.Accounting
import GoInventory.Proofs.Syntax.FileSoundness
import GoInventory.Proofs.Token.Tiling
import Mathlib.Algebra.GroupWithZero.Nat

/-!
# A file needs no more of anything than it has tokens

Every kind of cell is paid for by tokens: with one token one cell of each kind
can be made, and one text be entered. So it is enough to follow one kind, and to
count how many tokens are left over (`Spends`). The rules of the grammar say
which tokens pay for what. A type pays for its node with a token of its own; the
items of a list are paid by the separators; and where there are none, as for the
terms of a union, it matters that a type leaves one token over, unless types or
texts are what is counted (`spare`).
-/

namespace GoInventory

open Arena

variable {hash : String → UInt64} {α β : Type}

/-- How many there are of what is counted: cells of one kind, or texts. -/
def Arena.count (A : Arena hash) : Option CellKind → Nat
  | some k => (A.cells k).length
  | none => A.symbols.strings.size

/-- What one thing costs if things like `c` are counted. -/
def price (c k : Option CellKind) : Nat := if c = k then 1 else 0

/-- What a name leaves over of its token, after a type was made of it. -/
def spare (c : Option CellKind) : Nat := 1 - price c none - price c (some .type)

/-- One token is enough for one thing of each kind. -/
theorem prices (c : Option CellKind) :
    price c none + price c (some .type) + price c (some .field)
      + price c (some .signature) + price c (some .length) +
      price c (some .decl) + price c (some .nameItem) + price c (some .declItem)
        + price c (some .specItem) +
      price c (some .typeItem) + price c (some .fieldItem)
        + price c (some .termItem) ≤ 1 ∧
    price c none + price c (some .type) + spare c = 1 := by
  cases c with
  | none => decide
  | some k => cases k <;> decide

/-- New cells of a kind count for that kind only. -/
theorem Arena.count_extend {k : CellKind} (A : Arena hash) (more : List (Cell k))
    (c : Option CellKind) :
    (A.extend more).count c = A.count c + more.length * price c (some k) := by
  cases c with
  | none => rfl
  | some j =>
    unfold price
    by_cases hj : j = k
    · subst hj
      rw [if_pos rfl, Nat.mul_one]
      show ((A.extend more).cells j).length = _
      rw [cells_extend_self, List.length_append]
      rfl
    · rw [if_neg fun h => hj (Option.some.inj h), Nat.mul_zero]
      show ((A.extend more).cells j).length = _
      rw [cells_extend_of_ne A more hj]
      rfl

/-- With so much to spend on what is counted, something can be stored, and so
much is left over. -/
def Spends (c : Option CellKind) (s : Store hash β) (paid : Nat) (left : β → Nat) :
    Prop :=
  ∀ A, (s A).2.count c + left (s A).1 ≤ A.count c + paid

namespace Spends

variable {c : Option CellKind} {s : Store hash α} {f : α → Store hash β} {mid : α →
  Nat} {left : β → Nat} {paid : Nat}

/-- Storing nothing spends nothing. -/
theorem pure {b : β} (h : left b ≤ paid) :
    Spends c (pure b : Store hash β) paid left :=
  fun _ => Nat.add_le_add_left h _

/-- What the first part leaves over can be spent on the second. -/
theorem bind (h : Spends c s paid mid) (hf : ∀ a, Spends c (f a) (mid a) left) :
    Spends c (s >>= f) paid left :=
  fun A => Nat.le_trans (hf (s A).1 (s A).2) (h A)

/-- More may be paid, and less left over. -/
theorem mono {paid' : Nat} {left' : α → Nat} (h : Spends c s paid mid)
    (hpaid : paid ≤ paid') (hleft : ∀ a, left' a ≤ mid a) :
    Spends c s paid' left' := by
  intro A
  have hspends := h A
  have hle := hleft (s A).1
  omega

/-- What is not spent is left over. -/
theorem frame (rest : Nat) (h : Spends c s paid mid) :
    Spends c s (rest + paid) fun a => rest + mid a := by
  intro A
  have hspends := h A
  dsimp only
  omega

/-- First one part is stored, while the rest of the budget is kept. -/
theorem next {part : Nat} (rest : Nat) (h : Spends c s part mid)
    (hle : rest + part ≤ paid) (hf : ∀ a, Spends c (f a) (rest + mid a) left) :
    Spends c (s >>= f) paid left := by
  exact .bind ((h.frame rest).mono hle fun _ => Nat.le_refl _) hf

/-- A node costs what its kind is counted for. -/
theorem alloc {k : CellKind} {cell : Cell k} {rest : Nat}
    (h : price c (some k) + rest ≤ paid) :
    Spends c (Arena.alloc cell : Store hash _) paid fun _ => rest := by
  intro A
  have hcount := count_extend A [cell] c
  rw [List.length_singleton, Nat.one_mul] at hcount
  show (A.extend [cell]).count c + rest ≤ _
  omega

/-- A text costs at most one, if texts are counted. -/
theorem intern {text : String} (rest : Nat) (h : price c none + rest ≤ paid) :
    Spends c (Arena.intern text : Store hash _) paid fun _ => rest := by
  intro A
  have hcount : (Arena.intern text A).2.count c ≤ A.count c + price c none := by
    cases c with
    | some k => exact Nat.le_add_right _ _
    | none =>
      show (A.symbols.intern text).2.strings.size ≤ A.symbols.strings.size + 1
      unfold SymbolTable.intern
      cases A.symbols.find? text with
      | some s => exact Nat.le_succ _
      | none => exact Nat.le_of_eq (Array.size_push _)
  dsimp only
  omega

/-- The items of a list are paid one by one. -/
theorem list {k : CellKind} {items : List (Cell k)} {f : ListRef k →
    Store hash β} (rest : Nat)
    (h : rest + (items.map fun _ => price c (some k)).sum ≤ paid) (hf : ∀ r,
      Spends c (f r) rest left) :
    Spends c (Arena.list items >>= f) paid left := by
  rw [List.map_const', List.sum_replicate_nat] at h
  have hlist : Spends c (Arena.list items : Store hash _) paid fun _ => rest := by
    intro A
    have hcount := count_extend A items c
    show (A.extend items).count c + rest ≤ _
    omega
  exact .bind hlist hf

/-- Each of a list of parts has a budget of its own. -/
theorem mapM {as : List α} {s : α → Store hash β} {paid : α → Nat}
    (h : ∀ a ∈ as, Spends c (s a) (paid a) left) :
    Spends c (as.mapM s) (as.map paid).sum fun bs => (bs.map left).sum := by
  induction as with
  | nil => exact .pure (Nat.le_refl _)
  | cons a as ih =>
    obtain ⟨hfirst, hothers⟩ := List.forall_mem_cons.mp h
    rw [List.mapM_cons, List.map_cons, List.sum_cons]
    refine .next _ hfirst (Nat.le_of_eq (Nat.add_comm _ _)) fun b => ?_
    refine .next _ (ih hothers) (Nat.le_of_eq (Nat.add_comm _ _)) fun bs => .pure ?_
    rw [List.map_cons, List.sum_cons]

end Spends

/-- What is still to be paid for a parameter. -/
def HeldField.cost (c : Option CellKind) : HeldField → Nat
  | bare _ _ => price c (some .type) + price c (some .field)
  | unnamed _ _ => price c (some .field)
  | named names _ _ =>
    (names.map fun _ => price c (some .nameItem)).sum + price c (some .field)

/-- What a field has kept back is enough to make it. -/
theorem HeldField.spends_settle {c : Option CellKind} (h : HeldField) (rest : Nat) :
    Spends c (h.settle : Store hash _) (h.cost c + rest) fun _ => rest := by
  cases h with
  | bare name span =>
    have htype : Spends c (alloc (.type (.plain name) name.span) : Store hash _)
        (price c (some .type) + price c (some .field) + rest)
          fun _ => price c (some .field) + rest :=
      .alloc (Nat.le_of_eq (Nat.add_assoc ..).symm)
    exact .bind htype fun _ => .alloc (Nat.le_refl _)
  | unnamed type span => exact .alloc (Nat.le_refl _)
  | named names type span =>
    refine .list (price c (some .field) + rest) ?_ fun _ => .alloc (Nat.le_refl _)
    rw [List.map_map]
    show _ + (names.map fun _ => price c (some .nameItem)).sum
      ≤ (names.map fun _ => price c (some .nameItem)).sum
        + price c (some .field) + rest
    omega

/-- The items of both lists have been paid for before. -/
theorem spends_makeSignature {c : Option CellKind}
    {params results : List (NodeId .field)} {span : Span} (rest : Nat) :
    Spends c (makeSignature params results span : Store hash _)
      ((params.map fun _ => price c (some .fieldItem)).sum
        + (results.map fun _ => price c (some .fieldItem)).sum +
        price c (some .signature) + rest) fun _ => rest := by
  refine .list ((results.map fun _ => price c (some .fieldItem)).sum
    + price c (some .signature) + rest) ?_ fun _ => ?_
  · rw [List.map_map, Function.comp_def]
    omega
  refine .list (price c (some .signature) + rest) ?_ fun _ => .alloc (Nat.le_refl _)
  rw [List.map_map, Function.comp_def]
  omega

namespace Grammar

variable {F : Placement} {c : Option CellKind}

/-! ## Lists -/

section Lists

variable {item : α → List Token → Prop} {s : α → Store hash β} {left : β →
  Nat} {as : List α} {run : List Token}

/-- In a list each item has its own tokens and the one behind it. -/
theorem Listed.spends {separator close : Operator}
    (h : Listed item separator close as run)
    (hitem : ∀ a part, item a part → Spends c (s a) (part.length + 1) left) :
    Spends c (as.mapM s) run.length fun bs => (bs.map left).sum := by
  induction h with
  | none => exact .pure (Nat.zero_le _)
  | last ha =>
    rw [List.length_append, List.length_singleton]
    exact .next 0 (hitem _ _ ha) (by omega) fun b => .pure (by simp)
  | cons ha _ _ ih =>
    rw [List.mapM_cons, List.length_append, List.length_cons]
    refine .next _ (hitem _ _ ha) (by omega)
      fun b => .next (left b) ih (Nat.le_of_eq (Nat.add_comm _ _)) fun bs => ?_
    exact .pure (by rw [List.map_cons, List.sum_cons])

/-- Of items with operators between them each has its own tokens. -/
theorem Separated.spends {separator : Operator} (h : Separated item separator as run)
    (hitem : ∀ a part, item a part → Spends c (s a) part.length left) :
    Spends c (as.mapM s) run.length fun bs => (bs.map left).sum := by
  induction h with
  | one ha => exact .next 0 (hitem _ _ ha) (by omega) fun b => .pure (by simp)
  | @cons a as part more sep ha _ _ ih =>
    rw [List.mapM_cons, List.length_append, List.length_cons]
    refine .next more.length (hitem a part ha) (by omega) fun b => ?_
    refine .next (left b) ih (Nat.le_of_eq (Nat.add_comm _ _)) fun bs => ?_
    exact .pure (by rw [List.map_cons, List.sum_cons])

end Lists

/-! ## Names and literals -/

/-- One token pays for an identifier, and for one of whatever else is not
counted with it. -/
theorem spends_ident (name : Ident) (rest : Nat) (h : price c none + rest ≤ 1) :
    Spends c (name.store : Store hash _) 1 fun _ => rest :=
  .bind (.intern rest h) fun _ => .pure (Nat.le_refl _)

/-- A string literal pays for its text with its token. -/
theorem spends_string (lit : StringLit) :
    Spends c (lit.store : Store hash _) 1 fun _ => 0 := by
  have hprice := prices c
  exact .bind (.intern 0 (by omega)) fun _ => .pure (Nat.le_refl _)

/-- Names pay for the items that they are in a list. -/
theorem spends_names {names : List Ident} {run : List Token}
    (h : Separated (IdentRun F) .comma names run) :
    Spends c (names.mapM Ident.store : Store hash _) run.length fun refs =>
      (refs.map fun _ => price c (some .nameItem)).sum := by
  have hprice := prices c
  refine h.spends fun name part hname => ?_
  obtain ⟨t, rfl, -⟩ := hname
  exact spends_ident name _ (by omega)

/-- A list of names is made with what the names have paid. -/
theorem spends_makeNames {names : List Ident} {run : List Token}
    (h : Separated (IdentRun F) .comma names run) {refs : List IdentRef}
    {f : ListRef .nameItem → Store hash β} {left : β → Nat} (rest : Nat)
    (hf : ∀ r, Spends c (f r) rest left) :
    Spends c (makeNames names refs >>= f)
      (rest + (refs.map fun _ => price c (some .nameItem)).sum) left := by
  have hmake : (makeNames names refs : Store hash _) = list (refs.map .nameItem) := by
    cases h <;> rfl
  rw [hmake]
  refine .list rest ?_ hf
  rw [List.map_map, Function.comp_def]

theorem Tag.spends {tag : Option StringLit} {run : List Token} (h : Tag F tag run) :
    Spends c (storeOption StringLit.store tag : Store hash _) run.length
      fun _ => 0 := by
  cases h with
  | none => exact .pure (Nat.le_refl _)
  | some => exact .bind (spends_string _) fun _ => .pure (Nat.le_refl _)

/-- A name pays for its texts and its node, and may leave something over. -/
theorem Name.spends {name : TypeName} {run : List Token} {e : Ending}
    (h : Name F name run e) :
    Spends c (name.store : Store hash _) run.length fun _ => spare c := by
  have hprice := prices c
  cases h with
  | @plain n t =>
    exact .bind (spends_ident n (price c (some .type) + spare c) (by omega))
      fun _ => .alloc (Nat.le_refl _)
  | @qualified s pkg n =>
    refine .next 2 (spends_ident pkg 0 (by omega)) (Nat.le_refl _) fun _ => ?_
    exact .next 1 (spends_ident n 0 (by omega)) (Nat.le_refl _)
      fun _ => .alloc (by omega)

/-- The tokens of a length pay for its texts and its node. -/
theorem Length.spends {length : LengthExpr} {run : List Token}
    (h : Length F length run) (hne : run ≠ []) :
    Spends c (length.store : Store hash _) run.length fun _ => 0 := by
  have hprice := prices c
  cases h with
  | @ident n =>
    exact .bind (spends_ident n (price c (some .length)) (by omega))
      fun _ => .alloc (Nat.le_refl _)
  | @selector s pkg sel =>
    refine .next 2 (spends_ident pkg 0 (by omega)) (Nat.le_refl _) fun _ => ?_
    exact .next 1 (spends_ident sel 0 (by omega)) (Nat.le_refl _)
      fun _ => .alloc (by omega)
  | literal =>
    refine .bind (.intern (price c (some .length)) ?_) fun _ => .alloc (Nat.le_refl _)
    rw [List.length_singleton]
    omega
  | other =>
    have hpos := List.length_pos_of_ne_nil hne
    exact .alloc (by omega)

theorem Bound.spends {length : ArrayLength} {run : List Token}
    (h : Bound F length run) :
    Spends c (length.store : Store hash _) run.length fun _ => 0 := by
  cases h with
  | ellipsis => exact .pure (Nat.zero_le _)
  | expr _ _ hlength =>
    exact .bind (hlength.spends (List.cons_ne_nil _ _)) fun _ => .pure (Nat.le_refl _)

/-! ## Types -/

/-- What is known of the types in a type: their tokens pay for them, and there
is one to spare. -/
def Affords (hash : String → UInt64) (c : Option CellKind)
    (R : TypeExpr → List Token → Ending → Prop) : Prop :=
  ∀ t run e, R t run e → run ≠ [] ∧ Spends c (t.store : Store hash _) run.length
    fun _ => spare c

/-- A type without a name pays for its field and for the item that it
is in a list. -/
theorem spends_hold_unnamed {t : TypeExpr} {span : Span} {run : List Token}
    (hne : run ≠ [])
    (h : Spends c (t.store : Store hash _) run.length fun _ => spare c) :
    Spends c (Field.hold ⟨[], t, none, span⟩ : Store hash _) run.length fun held =>
      held.cost c + price c (some .fieldItem) := by
  have hprice := prices c
  have hpos := List.length_pos_of_ne_nil hne
  unfold Field.hold
  cases Field.bare? ⟨[], t, none, span⟩ with
  | some name =>
    refine .next (run.length - 1) (spends_ident name (1 - price c none) (by omega))
      (by omega) fun name' => .pure ?_
    show price c (some .type) + price c (some .field) + price c (some .fieldItem) ≤ _
    omega
  | none =>
    dsimp only
    rw [List.mapM_nil, pure_bind]
    refine .bind h fun type' => .pure ?_
    show price c (some .field) + price c (some .fieldItem) ≤ _
    omega

section Forms

variable {R : TypeExpr → List Token → Ending → Prop} (hR : Affords hash c R)

include hR

/-- A type inside a form has a token, and what it pays for is paid by
its own tokens. -/
theorem Inner.spends {t : TypeExpr} {run : List Token} (h : Inner R t run) :
    run ≠ [] ∧ Spends c (t.store : Store hash _) run.length fun _ => spare c := by
  obtain ⟨e, h⟩ := h
  exact hR t run e h

/-- The ellipsis of a variadic type pays for its node. -/
theorem ParamType.spends {t : TypeExpr} {run : List Token} (h : ParamType F R t run) :
    run ≠ [] ∧ Spends c (t.store : Store hash _) run.length fun _ => spare c := by
  have hprice := prices c
  cases h with
  | plain ht => exact Inner.spends hR ht
  | variadic _ ht =>
    refine ⟨List.cons_ne_nil _ _, ?_⟩
    rw [TypeExpr.store, List.length_cons]
    exact .next 1 (Inner.spends hR ht).2 (by omega) fun _ => .alloc (by omega)

/-- With a token for the separator behind it, a group of parameters pays for its
names, its type and its place in the list. -/
theorem NamedParams.spends {f : Field TypeExpr} {run : List Token}
    (h : NamedParams F R f run) :
    Spends c (f.hold : Store hash _) (run.length + 1)
      fun held => held.cost c + price c (some .fieldItem) := by
  have hprice := prices c
  cases h with
  | @mk names t s nameRun run hnames ht =>
    have hhold : (Field.hold ⟨names, t, none, s⟩ : Store hash _)
      = names.mapM Ident.store >>= fun names' =>
        t.store >>= fun type' => pure (.named names' type' s) := by
      cases hnames <;> rfl
    rw [hhold, List.length_append]
    refine .next (run.length + 1) (spends_names hnames) (by omega) fun names' => ?_
    refine .next (1 + (names'.map fun _ => price c (some .nameItem)).sum)
      (ParamType.spends hR ht).2 (by omega) fun _ => ?_
    refine .pure ?_
    show (names'.map fun _ => price c (some .nameItem)).sum + price c (some .field)
      + price c (some .fieldItem) ≤ _
    omega

/-- The parentheses around parameters pay for their fields and items, and one of
them is left over. -/
theorem Params.spends {fields : List (Field TypeExpr)} {run : List Token}
    (h : Params F R fields run) :
    Spends c (storeParams fields : Store hash _) run.length fun ids =>
      1 + (ids.map fun _ => price c (some .fieldItem)).sum := by
  have hsettle : ∀ held : List HeldField,
    Spends c (held.mapM HeldField.settle : Store hash _)
      (1 + (held.map fun h => h.cost c + price c (some .fieldItem)).sum) fun ids =>
        1 + (ids.map fun _ => price c (some .fieldItem)).sum :=
    fun held => (Spends.mapM fun h _ => h.spends_settle _).frame 1
  cases h with
  | unnamed _ hlisted =>
    refine .next 1 (hlisted.spends fun f part hf => ?_)
      (by rw [List.length_cons]; omega) hsettle
    cases hf with
    | mk ht =>
      obtain ⟨hne, hspends⟩ := ParamType.spends hR ht
      exact (spends_hold_unnamed hne hspends).mono (Nat.le_succ _)
        fun _ => Nat.le_refl _
  | named _ hlisted =>
    exact .next 1 (hlisted.spends fun f part hf => NamedParams.spends hR hf)
      (by rw [List.length_cons]; omega) hsettle

/-- Results pay for their fields and for the items of their list. -/
theorem Results.spends {fields : List (Field TypeExpr)} {run : List Token}
    {e : Ending} (h : Results F R fields run e) :
    Spends c (storeParams fields : Store hash _) run.length fun ids =>
      (ids.map fun _ => price c (some .fieldItem)).sum := by
  cases h with
  | none => exact .pure (Nat.le_refl _)
  | listed hparams =>
    exact (Params.spends hR hparams).mono (Nat.le_refl _) fun _ => Nat.le_add_left _ _
  | @bare t s first run _ _ ht =>
    obtain ⟨hne, hspends⟩ := hR _ _ _ ht
    have hhold : ∀ f ∈ [Field.mk [] t Option.none s],
      Spends c (f.hold : Store hash _) (first :: run).length fun held =>
        held.cost c + price c (some .fieldItem) := by
      intro f hf
      rw [List.mem_singleton.mp hf]
      exact spends_hold_unnamed hne hspends
    exact .bind (Spends.mapM hhold) fun held => .mapM fun h _ => h.spends_settle _

/-- The parentheses of a signature pay for its node. -/
theorem Sig.spends {sig : Signature TypeExpr} {run : List Token} {e : Ending}
    (h : Sig F R sig run e) :
    Spends c (sig.store : Store hash _) run.length
      fun _ => 1 - price c (some .signature) := by
  have hprice := prices c
  cases h with
  | @mk params results s paramRun resultRun _ hparams hresults =>
    rw [List.length_append]
    refine .next resultRun.length (Params.spends hR hparams) (by omega)
      fun params' => ?_
    refine .next (1 + (params'.map fun _ => price c (some .fieldItem)).sum)
      (Results.spends hR hresults) (by omega)
      fun results' => ?_
    exact (spends_makeSignature _).mono (by omega) fun _ => Nat.le_refl _

/-- A function type without its keyword pays for itself. -/
theorem Sig.spends_func {sig : Signature TypeExpr} {run : List Token} {e : Ending}
    {span : Span} (h : Sig F R sig run e) :
    Spends c ((TypeExpr.func span sig).store : Store hash _) run.length
      fun _ => 0 := by
  have hprice := prices c
  rw [TypeExpr.store_func]
  exact .bind (Sig.spends hR h) fun _ => .alloc (by omega)

/-- A term leaves over what its place in the list costs. -/
theorem TermRun.spends {term : Term TypeExpr} {run : List Token}
    (h : TermRun R term run) :
    Spends c (term.store : Store hash _) run.length
      fun _ => price c (some .termItem) := by
  have hprice := prices c
  cases h with
  | plain ht => exact .bind (Inner.spends hR ht).2 fun _ => .pure (by omega)
  | tilde _ ht =>
    rw [List.length_cons]
    exact .next 1 (Inner.spends hR ht).2 (by omega) fun _ => .pure (by omega)

/-- A bar or a tilde of a union is left over for its node. -/
theorem spends_terms {terms : List (Term TypeExpr)} {run : List Token}
    (hplain : ∀ t, terms ≠ [⟨false, t⟩]) (h : Separated (TermRun R) .pipe terms run) :
    Spends c (terms.mapM Term.store : Store hash _) run.length fun items =>
      1 + (items.map fun _ => price c (some .termItem)).sum := by
  have hprice := prices c
  cases h with
  | one hterm =>
    cases hterm with
    | plain => exact absurd rfl (hplain _)
    | @tilde t mark run _ ht =>
      have hterm : Spends c (Term.store ⟨true, t⟩ : Store hash _) run.length
          fun _ => price c (some .termItem) :=
        .bind (Inner.spends hR ht).2 fun _ => .pure (by omega)
      rw [List.length_cons]
      exact .next 1 hterm (by omega) fun item => .pure (by simp)
  | @cons term terms part more _ hterm _ hmore =>
    rw [List.mapM_cons, List.length_append, List.length_cons]
    refine .next (more.length + 1) (TermRun.spends hR hterm) (by omega) fun item => ?_
    refine .next (1 + price c (some .termItem))
      (hmore.spends fun _ _ => TermRun.spends hR) (by omega) fun items => ?_
    exact .pure (by rw [List.map_cons, List.sum_cons]; omega)

/-- The bars of a union pay for its terms, and one type has none. -/
theorem Constraint.spends {t : TypeExpr} {run : List Token} (h : Constraint F R t run) :
    Spends c (t.store : Store hash _) run.length fun _ => 0 := by
  have hprice := prices c
  cases h with
  | plain ht =>
    exact (Inner.spends hR ht).2.mono (Nat.le_refl _) fun _ => Nat.zero_le _
  | union hplain hterms =>
    rw [TypeExpr.store, storeTerms_eq]
    exact .bind (spends_terms hR hplain hterms)
      fun items => .list 1 (Nat.le_refl _) fun _ => .alloc (by omega)

/-- With a token for the semicolon behind it, a member pays for its names, its
type, its tag and its place in the list. -/
theorem MemberRun.spends {f : Field TypeExpr} {run : List Token}
    (h : MemberRun F R f run) :
    Spends c (f.storeMember : Store hash _) (run.length + 1)
      fun _ => price c (some .fieldItem) := by
  have hprice := prices c
  unfold Field.storeMember
  cases h with
  | @named names t tag s nameRun run tagRun hnames ht htag =>
    rw [List.length_append, List.length_append]
    refine .next (run.length + tagRun.length + 1) (spends_names hnames) (by omega)
      fun names' => ?_
    refine spends_makeNames hnames (run.length + tagRun.length + 1) fun r => ?_
    refine .next (tagRun.length + 1) (Inner.spends hR ht).2 (by omega) fun _ => ?_
    exact .next 1 htag.spends (by omega) fun _ => .alloc (by omega)
  | @embedded t tag s first run tagRun _ ht htag =>
    rw [List.length_append]
    dsimp only
    rw [List.mapM_nil, pure_bind, makeNames_nil, pure_bind]
    refine .next (tagRun.length + 1) (Inner.spends hR ht).2 (by omega) fun _ => ?_
    exact .next 1 htag.spends (by omega) fun _ => .alloc (by omega)

/-- The same for an element of an interface. -/
theorem ElementRun.spends {f : Field TypeExpr} {run : List Token}
    (h : ElementRun F R f run) :
    Spends c (f.storeElement : Store hash _) (run.length + 1)
      fun _ => price c (some .fieldItem) := by
  have hprice := prices c
  unfold Field.storeElement
  cases h with
  -- the name pays for its item, the token behind the method for the
  -- field and its item
  | @method n sig s s' t run e hn hsig =>
    have hnames : Separated (IdentRun F) .comma [n] [t] := .one ⟨t, rfl, hn⟩
    rw [List.length_cons]
    refine .next (run.length + 1) (spends_names hnames) (Nat.le_refl _)
      fun names' => ?_
    refine .next (1 + (names'.map fun _ => price c (some .nameItem)).sum)
      (Sig.spends_func hR hsig) (by omega) fun _ => ?_
    exact spends_makeNames hnames 1 fun _ => .alloc (by omega)
  | embedded ht =>
    dsimp only
    rw [List.mapM_nil, pure_bind]
    refine .next 1 (Constraint.spends hR ht) (by omega) fun _ => ?_
    rw [makeNames_nil, pure_bind]
    exact .alloc (by omega)

/-- **A type is paid for by its tokens**, if the types in it are. -/
theorem Form.spends {t : TypeExpr} {run : List Token} {e : Ending}
    (h : Form F R t run e) :
    Spends c (t.store : Store hash _) run.length fun _ => spare c := by
  have hprice := prices c
  cases h with
  | named hname => exact hname.spends
  | @applied s base args run more lb e hbase _ _ hargs =>
    rw [TypeExpr.store, storeTypes_eq, List.length_append, List.length_cons]
    refine .next (more.length + 1) hbase.spends (by omega) fun _ => ?_
    have hstore : ∀ a part, Inner R a part →
      Spends c (a.store : Store hash _) (part.length + 1) fun _ =>
        price c (some .typeItem) :=
      fun a part ha => (Inner.spends hR ha).2.mono (Nat.le_succ _) fun _ => by omega
    -- what the name has left over is not needed here, since the bracket
    -- pays for the node
    refine .next (1 + spare c) (hargs.spends hstore) (by omega) fun args' => ?_
    exact .list (1 + spare c) (by rw [List.map_map, Function.comp_def])
      fun _ => .alloc (by omega)
  | pointer _ helem =>
    rw [TypeExpr.store, List.length_cons]
    exact .next 1 (hR _ _ _ helem).2 (by omega) fun _ => .alloc (by omega)
  | slice _ _ helem | chan _ _ helem | send _ _ helem | receive _ _ helem =>
    rw [TypeExpr.store, List.length_cons]
    exact .next 1 (hR _ _ _ helem).2 (by simp only [List.length_cons]; omega)
      fun _ => .alloc (by omega)
  | @array s length elem lb rb lengthRun run e _ hlength _ helem =>
    rw [TypeExpr.store, List.length_append, List.length_cons, List.length_cons]
    refine .next (run.length + 1) hlength.spends (by omega) fun _ => ?_
    exact .next 1 (hR _ _ _ helem).2 (by omega) fun _ => .alloc (by omega)
  | @map s key value kw lb rb keyRun run e _ _ hkey _ hvalue =>
    rw [TypeExpr.store, List.length_append, List.length_cons, List.length_cons,
      List.length_cons]
    refine .next (run.length + 1) (Inner.spends hR hkey).2 (by omega) fun _ => ?_
    exact .next 1 (hR _ _ _ hvalue).2 (by omega) fun _ => .alloc (by omega)
  | func _ hsig =>
    rw [TypeExpr.store_func, List.length_cons]
    exact .next 1 (Sig.spends hR hsig) (by omega) fun _ => .alloc (by omega)
  | struct _ _ hmembers =>
    rw [TypeExpr.store, storeMembers_eq, List.length_cons, List.length_cons]
    refine .next 2 (hmembers.spends fun _ _ => MemberRun.spends hR) (by omega)
      fun ids => ?_
    exact .list 2 (by rw [List.map_map, Function.comp_def]) fun _ => .alloc (by omega)
  | interface _ _ helems =>
    rw [TypeExpr.store, storeElements_eq, List.length_cons, List.length_cons]
    refine .next 2 (helems.spends fun _ _ => ElementRun.spends hR) (by omega)
      fun ids => ?_
    exact .list 2 (by rw [List.map_map, Function.comp_def]) fun _ => .alloc (by omega)
  | paren _ helem =>
    rw [TypeExpr.store, List.length_append, List.length_cons]
    exact .next 1 (Inner.spends hR helem).2 (by omega) fun _ => .alloc (by omega)

end Forms

/-- Types up to a given depth are paid for by the tokens that spell them. -/
theorem affords_spellsWithin (depth : Nat) :
    Affords hash c (SpellsWithin F depth) := by
  induction depth with
  | zero => exact fun _ _ _ h => h.elim
  | succ depth ih =>
    intro t run e h
    exact ⟨List.ne_nil_of_length_pos (Form.length_pos h), Form.spends ih h⟩

/-- **A type is paid for by the tokens that spell it.** -/
theorem affords_spells : Affords hash c (Spells F) := by
  intro t run e h
  obtain ⟨depth, h⟩ := h
  exact affords_spellsWithin depth t run e h

/-! ## Files -/

/-- An import pays for its name and its path. -/
theorem ImportRun.spends {spec : ImportSpec} {run : List Token}
    (h : ImportRun F spec run) :
    Spends c (spec.store : Store hash _) run.length fun _ => 0 := by
  have hprice := prices c
  cases h with
  | @mk name path run t hname =>
    have hstore : Spends c (storeOption Ident.store name : Store hash _) run.length
        fun _ => 0 := by
      cases hname with
      | none => exact .pure (Nat.le_refl _)
      | dot | name =>
        exact .bind (spends_ident _ 0 (by omega)) fun _ => .pure (Nat.le_refl _)
    rw [List.length_append, List.length_singleton]
    exact .next 1 hstore (by omega)
      fun _ => .bind (spends_string path) fun _ => .pure (Nat.le_refl _)

/-- A value declaration pays for its names and its type. -/
theorem ValueRun.spends {spec : ValueSpec} {run : List Token}
    (h : ValueRun F spec run) :
    Spends c (spec.store : Store hash _) run.length fun _ => 0 := by
  cases h with
  | @mk names type values nameRun typeRun valueRun hnames htype =>
    have hstore : Spends c (storeOption TypeExpr.store type : Store hash _)
        typeRun.length fun _ => 0 := by
      cases htype with
      | none => exact .pure (Nat.le_refl _)
      | some ht =>
        exact .bind (Inner.spends affords_spells ht).2 fun _ => .pure (Nat.zero_le _)
    rw [List.length_append, List.length_append]
    refine .next typeRun.length (spends_names hnames) (by omega) fun names' => ?_
    exact spends_makeNames hnames typeRun.length
      fun _ => .bind hstore fun _ => .pure (Nat.le_refl _)

/-- A group of type parameters pays as one of parameters does. -/
theorem TypeParam.spends {f : Field TypeExpr} {run : List Token}
    (h : TypeParam F f run) :
    Spends c (f.storeElement : Store hash _) (run.length + 1)
      fun _ => price c (some .fieldItem) := by
  have hprice := prices c
  unfold Field.storeElement
  cases h with
  | @mk names t s nameRun run hnames ht =>
    rw [List.length_append]
    refine .next (run.length + 1) (spends_names hnames) (by omega) fun names' => ?_
    refine .next (1 + (names'.map fun _ => price c (some .nameItem)).sum)
      (Constraint.spends affords_spells ht) (by omega)
      fun _ => ?_
    exact spends_makeNames hnames 1 fun _ => .alloc (by omega)

/-- The brackets pay for what the last group lacks. -/
theorem TypeParams.spends {params : List (Field TypeExpr)} {run : List Token}
    (h : TypeParams F params run) :
    Spends c (storeTypeParams params : Store hash _) run.length fun _ => 0 := by
  cases h with
  | none => exact .pure (Nat.le_refl _)
  | @some params lb run _ hne hlisted =>
    cases params with
    | nil => exact absurd rfl hne
    | cons param params =>
      refine .next 1 (hlisted.spends fun _ _ => TypeParam.spends)
        (by rw [List.length_cons]; omega) fun ids => ?_
      rw [← bind_pure (list _)]
      exact .list 1 (by rw [List.map_map, Function.comp_def])
        fun _ => .pure (Nat.zero_le _)

/-- A type declaration pays for its name, its type parameters and its type. -/
theorem TypeSpecRun.spends {spec : TypeSpec} {run : List Token}
    (h : TypeSpecRun F spec run) :
    Spends c (spec.store : Store hash _) run.length fun _ => 0 := by
  have hprice := prices c
  cases h with
  | @mk name params isAlias type t paramRun signRun run _ hparams _ htype =>
    rw [List.length_cons, List.length_append, List.length_append]
    refine .next (paramRun.length + run.length) (spends_ident name 0 (by omega))
      (by omega) fun _ => ?_
    refine .next run.length hparams.spends (by omega) fun _ => ?_
    exact .bind (Inner.spends affords_spells htype).2 fun _ => .pure (Nat.zero_le _)

/-- The keyword of a group pays for its declaration, and the separators
for its specs. -/
theorem GroupRun.spends {σ : Type} {word : Keyword} {spec : σ → List Token →
    Prop} {kind : GroupKind}
    {s : σ → Store hash SpecNode} {group : Group σ} {run : List Token}
      (h : GroupRun F word spec group run)
    (hspec : ∀ a part, spec a part → Spends c (s a) part.length fun _ => 0) :
    Spends c (group.store kind s) run.length fun _ => price c (some .declItem) := by
  have hprice := prices c
  have hitem : ∀ a part, spec a part →
      Spends c (s a) (part.length + 1) fun _ => price c (some .specItem) :=
    fun a part ha => ((hspec a part ha).frame 1).mono
      (Nat.le_of_eq (Nat.add_comm _ _)) fun _ => by omega
  cases h with
  | @single a span kw run _ ha =>
    -- there is no separator behind a single spec, and the keyword pays for all
    -- that is not in it
    unfold Group.store
    simp only [List.mapM_cons, List.mapM_nil, bind_assoc, pure_bind]
    refine .next 1 (hspec a run ha) (by rw [List.length_cons]; omega) fun spec' => ?_
    refine .list (price c (some .decl) + price c (some .declItem)) ?_
      fun _ => .alloc (Nat.le_refl _)
    show _ + (price c (some .specItem) + 0) ≤ _
    omega
  | listed _ _ hlisted =>
    rw [List.length_cons, List.length_cons]
    refine .next 1 (hlisted.spends hitem) (by omega) fun specs' => ?_
    exact .list 1 (by rw [List.map_map, Function.comp_def]) fun _ => .alloc (by omega)

theorem ReceiverRun.spends {receiver : Option (Field TypeExpr)} {run : List Token}
    (h : ReceiverRun F receiver run) :
    Spends c (storeOption Field.storeReceiver receiver : Store hash _) run.length
      fun _ => 0 := by
  cases h with
  | none => exact .pure (Nat.le_refl _)
  | @some f run hparams =>
    -- a receiver is a list of parameters with one item
    have hlist : (storeParams [f] : Store hash _)
        = f.storeReceiver >>= fun id => pure [id] := by
      unfold storeParams Field.storeReceiver
      simp only [List.mapM_cons, List.mapM_nil, bind_assoc, pure_bind]
    have hspends : Spends c (storeParams [f] : Store hash _) _ _ :=
      Params.spends affords_spells hparams
    rw [hlist] at hspends
    exact fun A => Nat.le_trans (Nat.le_add_right _ _) (hspends A)

/-- The keyword of a function pays for its node and its place in the file. -/
theorem FuncRun.spends {decl : FuncDecl} {run : List Token} (h : FuncRun F decl run) :
    Spends c (decl.store : Store hash _) run.length
      fun _ => price c (some .declItem) := by
  have hprice := prices c
  cases h with
  | @mk receiver name typeParams sig body s kw t receiverRun typeRun sigRun bodyRun e
      _ hreceiver _ hparams hsig =>
    simp only [List.length_cons, List.length_append]
    refine .next (typeRun.length + sigRun.length + 2) hreceiver.spends (by omega)
      fun _ => ?_
    refine .next (typeRun.length + sigRun.length + 1) (spends_ident name 0 (by omega))
      (by omega) fun _ => ?_
    refine .next (sigRun.length + 1) hparams.spends (by omega) fun _ => ?_
    exact .next 1 (Sig.spends affords_spells hsig) (by omega)
      fun _ => .alloc (by omega)

/-- A declaration pays for its place in the file. -/
theorem DeclRun.spends {decl : Decl} {run : List Token} (h : DeclRun F decl run) :
    Spends c (decl.store : Store hash _) run.length
      fun _ => price c (some .declItem) := by
  cases h with
  | imports hgroup => exact hgroup.spends fun _ _ => ImportRun.spends
  | consts hgroup | vars hgroup => exact hgroup.spends fun _ _ => ValueRun.spends
  | types hgroup => exact hgroup.spends fun _ _ => TypeSpecRun.spends
  | func hfunc => exact hfunc.spends

/-- **Declarations are paid for by the tokens of the file.** -/
theorem DeclsRun.spends {decls : List Decl} {run : List Token}
    (h : DeclsRun F decls run) :
    Spends c (decls.mapM Decl.store : Store hash _) run.length
      fun ids => (ids.map fun _ => price c (some .declItem)).sum := by
  induction h with
  | nil => exact .pure (Nat.zero_le _)
  | @cons decl decls before run behind more _ hdecl _ _ ih =>
    rw [List.mapM_cons]
    simp only [List.length_append]
    refine .next more.length hdecl.spends (by omega) fun id => ?_
    refine .next (price c (some .declItem)) ih (by omega) fun ids => .pure ?_
    rw [List.map_cons, List.sum_cons]

/-- **A file is paid for by its tokens.** -/
theorem FileRun.spends {file : SourceFile} {run : List Token} (h : FileRun F file run) :
    Spends c (file.store : Store hash _) run.length fun _ => 0 := by
  have hprice := prices c
  cases h with
  | @mk package decls kw t before behind run _ _ _ _ hdecls =>
    simp only [List.length_append, List.length_cons]
    refine .next run.length (spends_ident package 0 (by omega)) (by omega) fun _ => ?_
    refine .next 0 hdecls.spends (by omega) fun ids => ?_
    exact .list 0 (by rw [List.map_map, Function.comp_def])
      fun _ => .pure (Nat.le_refl _)

end Grammar

/-- **A source shorter than 2³² - 1 bytes fits into an arena.** -/
theorem fits_store {source : String} {file : SourceFile}
    (hlength : Text.byteLength source.toList < 2 ^ 32 - 1)
    (hparse : parseSource source = .ok file) :
    (file.store (.empty : Arena hash)).2.Fits := by
  have hrun : Grammar.FileRun .anywhere file (tokenize source).tokens :=
    fileRun_of_parseTokens (parseTokens_of_parseSource hparse) trivial
  -- every token has a byte of its own, but for one semicolon at the end of the source
  have htokens : (tokenize source).tokens.length ≤ _ :=
    length_tokensFrom_le (Lexeme.cut source.toList) false 0 fun _ h => h
  rw [Lexeme.flatMap_text_cut] at htokens
  have hcount : ∀ c, (file.store (.empty : Arena hash)).2.count c
      ≤ (tokenize source).tokens.length := by
    intro c
    have hspends : Spends c (file.store : Store hash _) _ _ := hrun.spends
    have hempty : (Arena.empty : Arena hash).count c = 0 := by cases c <;> rfl
    have hfile := hspends .empty
    omega
  refine ⟨fun k => ?_, ?_⟩
  · have hk := hcount (some k)
    exact lt_of_le_of_lt hk (by omega)
  · have htexts := hcount none
    exact lt_of_le_of_lt htexts (by omega)

end GoInventory
