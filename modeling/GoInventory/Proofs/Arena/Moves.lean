import GoInventory.Proofs.Arena.Forest
import GoInventory.Proofs.Arena.Store
import GoInventory.Proofs.TypeText.Outline

/-!
# Storing is a sequence of moves

Every part of a file is put into an arena by moves that keep the forest
(`Moves`): none of them uses a link twice, or loses one. What has to be shown
for each is where its links go, and that is read off in the order in which they
are made. For a whole file all links end up in the arena, or in the file itself
(`SourceFile.moves_store`).
-/

namespace GoInventory

open Arena

variable {hash : String → UInt64} {α β γ : Type}

/-- Storing is a sequence of moves. The links in `needs` are given up, and those
of what was stored are held after it. -/
def Moves (needs : Multiset Link) (s : Store hash β) (gives : β → Multiset Link) :
    Prop :=
  ∀ A held, Steps (A, needs + held) ((s A).2, gives (s A).1 + held)

namespace Moves

variable {needs rest : Multiset Link} {s : Store hash α} {f : α →
  Store hash β} {mid : α → Multiset Link}
  {gives : β → Multiset Link}

theorem of_eq {needs' : Multiset Link} {s : Store hash β} (h : needs' = needs)
    (hs : Moves needs s gives) : Moves needs' s gives :=
  h ▸ hs

/-- What needs nothing from the arena gives on the links that it was given. -/
theorem pure {b : β} (h : needs = gives b) :
    Moves needs (pure b : Store hash β) gives :=
  .of_eq h fun _ _ => .refl

/-- The second part takes over the links that the first one has made. -/
theorem bind (h : Moves needs s mid) (hf : ∀ a, Moves (mid a) (f a) gives) :
    Moves needs (s >>= f) gives :=
  fun A held => (h A held).trans (hf (s A).1 (s A).2 held)

/-- Links that are not given up are still held. -/
theorem frame (h : Moves needs s mid) :
    Moves (rest + needs) s fun a => rest + mid a := by
  intro A held
  have hsteps := h A (rest + held)
  rwa [add_left_comm, ← add_assoc, add_left_comm, ← add_assoc] at hsteps

/-- First one part is stored, while other links are held. -/
theorem next (h : Moves 0 s mid) (hf : ∀ a, Moves (rest + mid a) (f a) gives) :
    Moves rest (s >>= f) gives :=
  .of_eq (add_zero rest).symm (.bind h.frame hf)

/-- A node takes the links in it, and is a link itself. -/
theorem alloc {k : CellKind} (cell : Cell k) (h : needs = cell.links) :
    Moves needs (Arena.alloc cell : Store hash _) NodeId.links := by
  intro A held
  rw [h]
  exact .single (.node A cell held)

/-- A list takes the links of its items. -/
theorem list {k : CellKind} {items : List (Cell k)} {f : ListRef k → Store hash β}
    (rest : Multiset Link) (h : needs = rest + linksOf items)
    (hf : ∀ r, Moves (rest + {.list r}) (f r) gives) :
    Moves needs (Arena.list items >>= f) gives := by
  have hlist : Moves (linksOf items) (Arena.list items : Store hash _)
      fun r => {.list r} :=
    fun A held => .single (.items A items held)
  exact .of_eq h (.bind hlist.frame hf)

/-- The list without items can be used at any time. -/
theorem nothing {s : Store hash β} {k : CellKind}
    (h : Moves ({.list (.empty : ListRef k)} + needs) s gives) :
    Moves needs s gives := by
  intro A held
  have hsteps := h A held
  rw [add_assoc] at hsteps
  exact hsteps.head (.nothing A _)

/-- A text is entered for the one link that is made to it. -/
theorem intern (text : String) :
    Moves 0 (Arena.intern text : Store hash _) fun symbol => {.symbol symbol} := by
  intro A held
  rw [zero_add]
  exact .single (.text A text held)

/-- The items of a list are stored one by one, with the links of those
before them held. -/
theorem mapM {as : List α} {s : α → Store hash β} {needs : α → Multiset Link}
    (h : ∀ a ∈ as, Moves (needs a) (s a) gives) :
    Moves (as.map needs).sum (as.mapM s) fun bs => (bs.map gives).sum := by
  induction as with
  | nil => exact .pure rfl
  | cons a as ih =>
    obtain ⟨hfirst, hothers⟩ := List.forall_mem_cons.mp h
    rw [List.mapM_cons, List.map_cons, List.sum_cons, add_comm]
    refine .bind hfirst.frame fun b => ?_
    rw [add_comm]
    refine .bind (ih hothers).frame fun bs => ?_
    exact .pure rfl

/-- Several parts are stored while other links are held. -/
theorem nextAll {as : List α} {s : α → Store hash γ} {mid : γ → Multiset Link}
    {f : List γ → Store hash β} (h : ∀ a ∈ as, Moves 0 (s a) mid)
    (hf : ∀ bs, Moves (rest + (bs.map mid).sum) (f bs) gives) :
    Moves rest (as.mapM s >>= f) gives := by
  have hall := Moves.mapM h
  rw [List.map_const', List.sum_replicate, nsmul_zero] at hall
  exact .next hall hf

end Moves

/-- The links of a list are those of its items. -/
theorem linksOf_map {k : CellKind} (cell : α → Cell k) (as : List α) :
    linksOf (as.map cell) = (as.map fun a => (cell a).links).sum := by
  unfold linksOf
  rw [List.map_map]
  rfl

/-! ## Names and literals -/

/-- An identifier is a link to its text. -/
theorem Ident.moves_store (name : Ident) :
    Moves 0 (name.store : Store hash _) IdentRef.links :=
  .bind (.intern name.name) fun _ => .pure rfl

theorem StringLit.moves_store (lit : StringLit) :
    Moves 0 (lit.store : Store hash _) StringRef.links :=
  .bind (.intern lit.text) fun _ => .pure rfl

/-- A part that is missing has no links. -/
theorem moves_storeOption {s : α → Store hash β} {gives : β → Multiset Link}
    {a? : Option α} (h : ∀ a ∈ a?, Moves 0 (s a) gives) :
    Moves 0 (storeOption s a?) (optionLinks gives) := by
  cases a? with
  | none => exact .pure rfl
  | some a => exact .bind (h a rfl) fun b => .pure rfl

/-- A name is stored as a node with links to its texts. -/
theorem TypeName.moves_store (name : TypeName) :
    Moves 0 (name.store : Store hash _) NodeId.links := by
  cases name with
  | plain name => exact .bind name.moves_store fun name' => .alloc _ rfl
  | qualified span pkg name =>
    exact .bind pkg.moves_store
      fun pkg' => .next name.moves_store fun name' => .alloc _ rfl

/-- A length is stored as a node with links to the texts that occur in it. -/
theorem LengthExpr.moves_store (length : LengthExpr) :
    Moves 0 (length.store : Store hash _) NodeId.links := by
  cases length with
  | ident name => exact .bind name.moves_store fun name' => .alloc _ rfl
  | selector span pkg sel =>
    exact .bind pkg.moves_store
      fun pkg' => .next sel.moves_store fun sel' => .alloc _ rfl
  | literal span kind text => exact .bind (.intern text) fun symbol => .alloc _ rfl
  | other span => exact .alloc _ rfl

theorem ArrayLength.moves_store (length : ArrayLength) :
    Moves 0 (length.store : Store hash _) LengthRef.links := by
  cases length with
  | expr length => exact .bind length.moves_store fun id => .pure rfl
  | ellipsis => exact .pure rfl

/-! ## Fields -/

/-- The links of the parts of a parameter. -/
def HeldField.links : HeldField → Multiset Link
  | bare name _ => name.links
  | unnamed type _ => {.node type}
  | named names type _ => (names.map IdentRef.links).sum + {.node type}

/-- Settling a field gives up what it has kept back. -/
theorem HeldField.moves_settle (h : HeldField) :
    Moves h.links (h.settle : Store hash _) NodeId.links := by
  cases h with
  -- without names the field takes the list without items, which is linked to from
  -- many places but leads to none
  | bare name span =>
    exact .bind (.alloc _ rfl) fun type => .nothing (.alloc _ (add_zero _).symm)
  | unnamed type span => exact .nothing (.alloc _ (add_zero _).symm)
  | named names type span =>
    refine .list ({.node type}) ?_ fun r => .alloc _ ?_
    · rw [linksOf_map, add_comm]
      rfl
    · rw [add_comm]
      exact (add_zero _).symm

/-- A signature takes the fields of both of its lists. -/
theorem moves_makeSignature (params results : List (NodeId .field)) (span : Span) :
    Moves ((params.map NodeId.links).sum + (results.map NodeId.links).sum)
      (makeSignature params results span : Store hash _)
      NodeId.links := by
  refine .list ((results.map NodeId.links).sum) ?_ fun params' => ?_
  · rw [linksOf_map, add_comm]
    rfl
  refine .list ({.list params'}) ?_ fun results' => .alloc _ rfl
  rw [linksOf_map, add_comm]
  rfl

namespace Field

variable {field : Field TypeExpr}
  (htype : Moves 0 (field.type.store : Store hash _) NodeId.links)

include htype

/-- A field that is kept back holds the links of its names and of its type. -/
theorem moves_hold : Moves 0 (field.hold : Store hash _) HeldField.links := by
  unfold hold
  cases field.bare? with
  | some name => exact .bind name.moves_store fun name' => .pure rfl
  | none =>
    cases field.names with
    | nil =>
      rw [List.mapM_nil, pure_bind]
      exact .bind htype fun type' => .pure rfl
    | cons name names =>
      refine .nextAll (fun n _ => n.moves_store)
        fun names' => .next htype fun type' => ?_
      rw [zero_add]
      exact .pure rfl

/-- The links of a member are those of its names, its type and its tag. -/
theorem moves_storeMember :
    Moves 0 (field.storeMember : Store hash _) NodeId.links := by
  unfold storeMember
  have htag : Moves 0 (storeOption StringLit.store field.tag : Store hash _) _ :=
    moves_storeOption fun lit _ => lit.moves_store
  cases field.names with
  | nil =>
    rw [List.mapM_nil, pure_bind, makeNames_nil, pure_bind]
    refine .nothing (k := .nameItem)
      (.next htype fun type' => .next htag fun tag' => .alloc _ ?_)
    rw [add_zero]
    rfl
  | cons name names =>
    refine .nextAll (fun n _ => n.moves_store) fun names' => ?_
    refine .list 0 ?_ fun r => .next htype fun type' => .next htag
      fun tag' => .alloc _ ?_
    · rw [linksOf_map]
      rfl
    · rw [zero_add]
      rfl

/-- An element of an interface has no tag to link to. -/
theorem moves_storeElement :
    Moves 0 (field.storeElement : Store hash _) NodeId.links := by
  unfold storeElement
  cases field.names with
  | nil =>
    rw [List.mapM_nil, pure_bind]
    refine .bind htype fun type' => ?_
    rw [makeNames_nil, pure_bind]
    exact .nothing (.alloc _ (add_zero _).symm)
  | cons name names =>
    refine .nextAll (fun n _ => n.moves_store)
      fun names' => .next htype fun type' => ?_
    refine .list ({.node type'}) ?_ fun r => .alloc _ ?_
    · rw [linksOf_map, zero_add, add_comm]
      rfl
    · rw [add_comm]
      exact (add_zero _).symm

theorem moves_storeReceiver :
    Moves 0 (field.storeReceiver : Store hash _) NodeId.links :=
  .bind (moves_hold htype) fun held => held.moves_settle

end Field

/-- Parameters are stored in two rounds, and what the first one links to is held
until the second. -/
theorem moves_storeParams {params : List (Field TypeExpr)}
    (h : ∀ f ∈ params, Moves 0 (f.type.store : Store hash _) NodeId.links) :
    Moves 0 (storeParams params : Store hash _)
      fun ids => (ids.map NodeId.links).sum := by
  refine .nextAll (fun f hf => Field.moves_hold (h f hf)) fun held => ?_
  rw [zero_add]
  exact .mapM fun h _ => h.moves_settle

/-- A signature gives one link, for all of its parts. -/
theorem Signature.moves_store {sig : Signature TypeExpr}
    (h : ∀ f ∈ sig.params ++ sig.results,
      Moves 0 (f.type.store : Store hash _) NodeId.links) :
    Moves 0 (sig.store : Store hash _) NodeId.links := by
  refine .bind (moves_storeParams fun f hf => h f (List.mem_append_left _ hf))
    fun params' => ?_
  refine .next (moves_storeParams fun f hf => h f (List.mem_append_right _ hf))
    fun results' => ?_
  exact moves_makeSignature params' results' sig.span

/-! ## Types -/

theorem Term.moves_store {term : Term TypeExpr}
    (h : Moves 0 (term.type.store : Store hash _) NodeId.links) :
    Moves 0 (term.store : Store hash _) Cell.links :=
  .bind h fun _ => .pure rfl

/-- **A type gives one link, to its node.** All other links of it are used up
below that node. -/
theorem TypeExpr.moves_store (t : TypeExpr) :
    Moves 0 (t.store : Store hash _) NodeId.links := by
  -- along the tree: the links to the types in it are held when the node is made, in
  -- the order in which it has them
  induction t using TypeExpr.induction_children with
  | h t ih =>
    cases t with
    | named name => exact name.moves_store
    | applied span base args =>
      rw [TypeExpr.store, storeTypes_eq]
      refine .bind base.moves_store
        fun base' => .nextAll (fun a ha => ih a (List.mem_cons_of_mem _ ha))
        fun args' => ?_
      exact .list _ (by rw [linksOf_map]; rfl) fun r => .alloc _ rfl
    | array span length elem =>
      rw [TypeExpr.store]
      exact .bind length.moves_store
        fun length' => .next (ih elem (List.mem_singleton_self _))
        fun elem' => .alloc _ rfl
    | map span key value =>
      rw [TypeExpr.store]
      have hvalue := ih value (List.mem_cons_of_mem _ (List.mem_singleton_self _))
      exact .bind (ih key List.mem_cons_self)
        fun key' => .next hvalue fun value' => .alloc _ rfl
    | func span sig =>
      rw [TypeExpr.store_func]
      refine .bind (Signature.moves_store fun f hf => ih f.type ?_)
        fun signature => .alloc _ rfl
      rw [TypeExpr.children, ← List.map_append]
      exact List.mem_map_of_mem hf
    | struct span fields =>
      rw [TypeExpr.store, storeMembers_eq]
      refine .nextAll (fun f hf => Field.moves_storeMember
        (ih f.type (List.mem_map_of_mem hf))) fun ids => ?_
      exact .list _ (by rw [linksOf_map]; rfl) fun r => .alloc _ (zero_add _)
    | interface span elems =>
      rw [TypeExpr.store, storeElements_eq]
      refine .nextAll (fun f hf => Field.moves_storeElement
        (ih f.type (List.mem_map_of_mem hf))) fun ids => ?_
      exact .list _ (by rw [linksOf_map]; rfl) fun r => .alloc _ (zero_add _)
    | union span terms =>
      rw [TypeExpr.store, storeTerms_eq]
      refine .nextAll (fun term hterm => Term.moves_store
        (ih term.type (List.mem_map_of_mem hterm))) fun items => ?_
      exact .list _ rfl fun r => .alloc _ (zero_add _)
    | pointer span elem | slice span elem | chan span dir elem | variadic span elem
        | paren span elem =>
      rw [TypeExpr.store]
      exact .bind (ih elem (List.mem_singleton_self _)) fun elem' => .alloc _ rfl

/-! ## Files -/

/-- A list of type parameters gives one link, to the list. -/
theorem moves_storeTypeParams (params : List (Field TypeExpr)) :
    Moves 0 (storeTypeParams params : Store hash _) fun r => {.list r} := by
  cases params with
  | nil => exact .nothing (.pure (add_zero _))
  | cons param params =>
    refine .nextAll (fun f _ => Field.moves_storeElement f.type.moves_store)
      fun ids => ?_
    rw [← bind_pure (Arena.list _)]
    refine .list 0 (by rw [linksOf_map]; rfl) fun r => ?_
    rw [zero_add]
    exact .pure rfl

theorem ImportSpec.moves_store (spec : ImportSpec) :
    Moves 0 (spec.store : Store hash _) SpecNode.links := by
  refine .bind (moves_storeOption fun name _ => name.moves_store)
    fun name' => .next spec.path.moves_store fun path' => ?_
  exact .pure rfl

/-- A value declaration links to its names and its type. -/
theorem ValueSpec.moves_store (spec : ValueSpec) :
    Moves 0 (spec.store : Store hash _) SpecNode.links := by
  have htype : Moves 0 (storeOption TypeExpr.store spec.type : Store hash _) _ :=
    moves_storeOption fun type _ => type.moves_store
  unfold ValueSpec.store
  cases spec.names with
  | nil =>
    rw [List.mapM_nil, pure_bind, makeNames_nil, pure_bind]
    refine .nothing (k := .nameItem) (.next htype fun type' => .pure ?_)
    rw [add_zero]
    rfl
  | cons name names =>
    refine .nextAll (fun n _ => n.moves_store) fun names' => ?_
    refine .list 0 (by rw [linksOf_map]; rfl) fun r => .next htype fun type' => ?_
    rw [zero_add]
    exact .pure rfl

/-- A type declaration links to its name, its type parameters and its type. -/
theorem TypeSpec.moves_store (spec : TypeSpec) :
    Moves 0 (spec.store : Store hash _) SpecNode.links :=
  .bind spec.name.moves_store
    fun _ => .next (moves_storeTypeParams spec.typeParams) fun _ =>
    .next spec.type.moves_store fun _ => .pure rfl

/-- A group takes the links of its specs. -/
theorem Group.moves_store {σ : Type} {kind : GroupKind} {s : σ → Store hash SpecNode}
    (h : ∀ spec, Moves 0 (s spec) SpecNode.links) (group : Group σ) :
    Moves 0 (group.store kind s) NodeId.links := by
  refine .nextAll (fun spec _ => h spec) fun specs' => ?_
  exact .list _ (by rw [linksOf_map]; rfl) fun r => .alloc _ (zero_add _)

/-- A function takes the links of its receiver, name, type parameters
and signature. -/
theorem FuncDecl.moves_store (decl : FuncDecl) :
    Moves 0 (decl.store : Store hash _) NodeId.links :=
  .bind (moves_storeOption
    fun f _ => Field.moves_storeReceiver f.type.moves_store) fun _ =>
    .next decl.name.moves_store
      fun _ => .next (moves_storeTypeParams decl.typeParams) fun _ =>
      .next (Signature.moves_store fun f _ => f.type.moves_store)
        fun _ => .alloc _ rfl

/-- **A declaration gives one link, to its node.** -/
theorem Decl.moves_store (decl : Decl) :
    Moves 0 (decl.store : Store hash _) NodeId.links := by
  cases decl with
  | imports group => exact group.moves_store ImportSpec.moves_store
  | consts group | vars group => exact group.moves_store ValueSpec.moves_store
  | types group => exact group.moves_store TypeSpec.moves_store
  | func decl => exact decl.moves_store

/-- **A file is stored by moves**, after which no links are held but its own. -/
theorem SourceFile.moves_store (file : SourceFile) :
    Moves 0 (file.store : Store hash _) StoredFile.links := by
  refine .bind file.package.moves_store
    fun package' => .nextAll (fun decl _ => decl.moves_store) fun decls' => ?_
  exact .list _ (by rw [linksOf_map]; rfl) fun r => .pure rfl

end GoInventory
