import GoInventory.Proofs.Arena.Forest
import GoInventory.Proofs.Arena.Reading

/-!
# The text of a type in an arena

The text of a type is written by following its links, and each type below it
takes one more round. Nothing in the code bounds the rounds, so it is the arena
that has to see to it that there is an end: in a forest the numbers of types
descend, and so a type needs no more rounds than its number says
(`Arena.safe_render`). In an arena that holds a type the text is that of the
type (`Arena.render_of_holds`).
-/

namespace GoInventory

open Relation (ReflTransGen TransGen)

namespace Arena

variable {hash : String → UInt64} {k : CellKind} {α β : Type}

section Definitions

variable (A : Arena hash)

/-- The text of a name of another package. -/
def qualifiedText (pkg name : IdentRef) : Except Interrupt String := do
  let pkg' ← A.text pkg.symbol
  let name' ← A.text name.symbol
  pure (pkg' ++ "." ++ name')

/-- The text of an array length in an array type with the span `whole`. -/
def lengthText (whole : Span) : LengthRef → Except Interrupt String
  | .ellipsis => .error (.unsupported ⟨.ellipsisLength, whole⟩)
  | .expr id => do
    let cell ← A.node id
    match cell with
    | .length (.ident name) _ => A.text name.symbol
    | .length (.selector pkg sel) _ => A.qualifiedText pkg sel
    | .length (.literal _ symbol) _ => A.text symbol
    | .length .other span => .error (.unsupported ⟨.lengthExpression, span⟩)

variable (inner : NodeId .type → Except Interrupt String)

/-- The text of names before the type they share. -/
def groupText (id : NodeId .field) : Except Interrupt String := do
  let cell ← A.node id
  let names ← A.names cell.fieldNode.names
  let type ← inner cell.fieldNode.type
  pure (if names.isEmpty then type else commaJoin names ++ " " ++ type)

/-- The text of results in parentheses. -/
def listedResults (ids : List (NodeId .field)) : Except Interrupt String := do
  let texts ← ids.mapM (A.groupText inner)
  pure (" (" ++ commaJoin texts ++ ")")

/-- What follows the parameters of a function type. -/
def resultsText : List (NodeId .field) → Except Interrupt String
  | [] => pure ""
  | [only] => do
    let cell ← A.node only
    if cell.fieldNode.names.len = 0 then
      let type ← inner cell.fieldNode.type
      pure (" " ++ type)
    else
      A.listedResults inner [only]
  | ids => A.listedResults inner ids

/-- The text of a function type. -/
def signatureText (id : NodeId .signature) : Except Interrupt String := do
  let cell ← A.node id
  match cell with
  | .signature params results _ => do
    let paramIds ← A.fieldIds params
    let paramTexts ← paramIds.mapM (A.groupText inner)
    let resultIds ← A.fieldIds results
    let resultsText ← A.resultsText inner resultIds
    pure ("func(" ++ commaJoin paramTexts ++ ")" ++ resultsText)

/-- The text of a type, given those of the types in it. -/
def formText (span : Span) : TypeNode → Except Interrupt String
  | .plain name => A.text name.symbol
  | .qualified pkg name => A.qualifiedText pkg name
  | .applied base args => do
    let baseText ← inner base
    let items ← A.items args
    let texts ← items.mapM fun item => inner item.typeId
    pure (baseText ++ "[" ++ commaJoin texts ++ "]")
  | .pointer elem => do
    let text ← inner elem
    pure ("*" ++ text)
  | .array length elem => do
    let lengthText ← A.lengthText span length
    let text ← inner elem
    pure ("[" ++ lengthText ++ "]" ++ text)
  | .slice elem => do
    let text ← inner elem
    pure ("[]" ++ text)
  | .map key value => do
    let keyText ← inner key
    let text ← inner value
    pure ("map[" ++ keyText ++ "]" ++ text)
  | .chan dir elem => do
    let text ← inner elem
    pure (dir.text ++ text)
  | .func signature => A.signatureText inner signature
  | .struct _ => pure "struct\x7b\x7d"
  | .interface _ => pure "interface\x7b\x7d"
  | .variadic elem => do
    let text ← inner elem
    pure ("..." ++ text)
  | .paren _ => .error (.unsupported ⟨.paren, span⟩)
  | .union _ => .error (.unsupported ⟨.union, span⟩)

/-- The text of a type, written in at most so many rounds. -/
def render : Nat → NodeId .type → Except Interrupt String
  | 0, _ => .error .outOfRounds
  | rounds + 1, id => do
    let cell ← A.node id
    match cell with
    | .type node span => A.formText (render rounds) span node

end Definitions

/-! ## Following links -/

theorem mem_singleton_add (link : Link) (others : Multiset Link) :
    link ∈ {link} + others :=
  Multiset.mem_add.mpr (.inl (Multiset.mem_singleton_self _))

theorem mem_add_singleton (link : Link) (others : Multiset Link) :
    link ∈ others + {link} :=
  Multiset.mem_add.mpr (.inr (Multiset.mem_singleton_self _))

/-- A field refers to its type. -/
theorem mem_links_field_type (node : FieldNode) (span : Span) :
    Link.node node.type ∈ (Cell.field node span).links :=
  Multiset.mem_add.mpr (.inl (mem_add_singleton _ _))

section Paths

variable {A : Arena hash}

/-- Addition that did not wrap around is addition. -/
theorem toNat_add_of_le {a b : UInt32} (h : a ≤ a + b) :
    (a + b).toNat = a.toNat + b.toNat := by
  rw [UInt32.le_iff_toNat_le, UInt32.toNat_add] at h
  rw [UInt32.toNat_add]
  -- a sum that is cut off is smaller than each of its parts
  have ha := a.toNat_lt
  have hb := b.toNat_lt
  omega

/-- A list has as many items as its reference says. -/
theorem length_slice? {r : ListRef k} {items : List (Cell k)}
    (h : A.slice? r = some items) : items.length = r.len.toNat := by
  unfold slice? at h
  split at h
  next hbounds =>
    have hend := toNat_add_of_le hbounds.1
    rw [← Option.some.inj h, List.length_drop, List.length_take]
    omega
  next => cases h

/-- The items of a list are in the places that it leads to. -/
theorem mem_refs_of_slice? {r : ListRef k} {items : List (Cell k)}
    (h : A.slice? r = some items) {item : Cell k} (hitem : item ∈ items) :
    ∃ i, (⟨k, i⟩ : Ref) ∈ (Link.list r).refs ∧ (A.cells k)[i]? = some item := by
  have hlength := length_slice? h
  obtain ⟨i, hi, hget⟩ := List.mem_iff_getElem.mp hitem
  refine ⟨r.start.toNat + i, ?_, ?_⟩
  · exact Multiset.mem_map.mpr ⟨i, Multiset.mem_range.mpr (hlength ▸ hi), rfl⟩
  · unfold slice? at h
    split at h
    next hbounds =>
      have hitems := Option.some.inj h
      have hget? : items[i]? = some item := by rw [List.getElem?_eq_getElem hi, hget]
      rw [← hitems, List.getElem?_drop, List.getElem?_take] at hget?
      split at hget?
      · exact hget?
      · cases hget?
    next => cases h

variable (A) in
/-- The place is reached by the link. -/
def Leads (link : Link) (r : Ref) : Prop :=
  ∃ top ∈ link.refs, ReflTransGen A.Child top r

/-- A reference to a node leads to that node. -/
theorem leads_node (id : NodeId k) : A.Leads (.node id) ⟨k, id.raw.toNat⟩ :=
  ⟨_, Multiset.mem_singleton_self _, .refl⟩

/-- What a part of a node leads to, the node leads to. -/
theorem Leads.of_node {id : NodeId k} {cell : Cell k} (hcell : A.cell? id = some cell)
    {link : Link} (hlink : link ∈ cell.links) {r : Ref} (h : A.Leads link r) :
    A.Leads (.node id) r := by
  obtain ⟨top, htop, hpath⟩ := h
  exact ⟨_, Multiset.mem_singleton_self _,
    hpath.head ⟨cell, hcell, link, hlink, htop⟩⟩

/-- What an item of a list leads to, the list leads to. -/
theorem Leads.of_list {l : ListRef k} {items : List (Cell k)}
    (hslice : A.slice? l = some items) {item : Cell k} (hitem : item ∈ items)
    {link : Link} (hlink : link ∈ item.links) {r : Ref} (h : A.Leads link r) :
    A.Leads (.list l) r := by
  obtain ⟨i, hi, hget⟩ := mem_refs_of_slice? hslice hitem
  obtain ⟨top, htop, hpath⟩ := h
  exact ⟨_, hi, hpath.head ⟨item, hget, link, hlink, htop⟩⟩

namespace Forest

variable {held : Multiset Link} (h : A.Forest held)

include h

/-- The types that are reached from a type have smaller numbers. -/
theorem lt_of_leads {id : NodeId .type} {cell : Cell .type}
    (hcell : A.cell? id = some cell) {link : Link} (hlink : link ∈ cell.links)
    {j : Nat} (hleads : A.Leads link ⟨.type, j⟩) : j < id.raw.toNat := by
  obtain ⟨top, htop, hpath⟩ := hleads
  exact h.descends _ _ (TransGen.head' ⟨cell, hcell, link, hlink, htop⟩ hpath)

/-- In a closed arena every node refers to something. -/
theorem has_of_cell {id : NodeId k} {cell : Cell k} (hcell : A.cell? id = some cell)
    {link : Link} (hlink : link ∈ cell.links) : A.Has link :=
  h.sound link (Multiset.mem_add.mpr
    (.inl (mem_links.mpr ⟨k, cell, List.mem_of_getElem? hcell, hlink⟩)))

/-- In a closed arena every item of a list refers to something. -/
theorem has_of_item {l : ListRef k} {items : List (Cell k)}
    (hslice : A.slice? l = some items) {item : Cell k} (hitem : item ∈ items)
    {link : Link} (hlink : link ∈ item.links) : A.Has link := by
  obtain ⟨i, -, hget⟩ := mem_refs_of_slice? hslice hitem
  exact h.sound link (Multiset.mem_add.mpr
    (.inl (mem_links.mpr ⟨k, item, List.mem_of_getElem? hget, hlink⟩)))

end Forest

end Paths

end Arena

/-! ## Writing comes to an end -/

/-- A text, or the reason why there is none. -/
def Interrupt.ofRender {α : Type} (r : Except UnsupportedType α) :
    Except Interrupt α := r.mapError .unsupported

open Interrupt (ofRender)

theorem ofRender_bind {α β : Type} (r : Except UnsupportedType α)
    (f : α → Except UnsupportedType β) :
    ofRender (r >>= f) = ofRender r >>= fun a => ofRender (f a) := by
  cases r <;> rfl

/-- Reading comes to an end, with what was to be read or because a
type has no text. -/
def Safe {α : Type} (x : Except Interrupt α) : Prop := ∃ r, x = ofRender r

namespace Safe

variable {α β : Type}

/-- A value is an end. -/
theorem ok (a : α) : Safe (.ok a) := ⟨.ok a, rfl⟩

/-- A type without a text is an end. -/
theorem unsupported (e : UnsupportedType) :
    Safe (.error (.unsupported e) : Except Interrupt α) := ⟨.error e, rfl⟩

/-- Two readings after each other come to an end if each does. -/
theorem bind {x : Except Interrupt α} {f : α → Except Interrupt β} (hx : Safe x)
    (hf : ∀ a, x = .ok a → Safe (f a)) : Safe (x >>= f) := by
  obtain ⟨r, rfl⟩ := hx
  cases r with
  | ok a => exact hf a rfl
  | error e => exact .unsupported e

/-- The first part is known. -/
theorem of_ok {x : Except Interrupt α} {f : α → Except Interrupt β} {a : α}
    (hx : x = .ok a) (hf : Safe (f a)) : Safe (x >>= f) := by
  rw [hx]
  exact hf

/-- Reading a list comes to an end if reading each item does. -/
theorem mapM {f : α → Except Interrupt β} {as : List α} (h : ∀ a ∈ as, Safe (f a)) :
    Safe (as.mapM f) := by
  induction as with
  | nil => exact .ok []
  | cons a as ih =>
    obtain ⟨hfirst, hothers⟩ := List.forall_mem_cons.mp h
    rw [List.mapM_cons]
    exact .bind hfirst fun b _ => .bind (ih hothers) fun bs _ => .ok (b :: bs)

end Safe

namespace Arena

section Safe

variable {hash : String → UInt64} {k : CellKind} {A : Arena hash}
  {held : Multiset Link}

/-- A reference that leads to a node can be followed. -/
theorem exists_node {id : NodeId k} (h : A.Has (.node id)) :
    ∃ cell, A.cell? id = some cell ∧ A.node id = .ok cell := by
  obtain ⟨cell, hcell⟩ := Option.isSome_iff_exists.mp h
  exact ⟨cell, hcell, node_of_cell hcell⟩

/-- A reference that leads to a list can be followed. -/
theorem exists_items {r : ListRef k} (h : A.Has (.list r)) :
    ∃ items, A.slice? r = some items ∧ A.items r = .ok items := by
  obtain ⟨items, hslice⟩ := Option.isSome_iff_exists.mp h
  exact ⟨items, hslice, items_of_slice hslice⟩

/-- A number of a text that is in the table can be looked up. -/
theorem safe_text {symbol : UInt32} (h : A.Has (.symbol symbol)) :
    Safe (A.text symbol) := by
  obtain ⟨text, htext⟩ := Option.isSome_iff_exists.mp h
  unfold Arena.text
  rw [htext]
  exact .ok text

theorem safe_qualifiedText {pkg name : IdentRef}
    (h : ∀ link ∈ pkg.links + name.links, A.Has link) :
    Safe (A.qualifiedText pkg name) := by
  have hpkg := safe_text (h (.symbol pkg.symbol) (mem_singleton_add _ _))
  have hname := safe_text (h (.symbol name.symbol) (mem_add_singleton _ _))
  exact .bind hpkg fun _ _ => .bind hname fun _ _ => .ok _

variable (hforest : A.Forest held)

include hforest

/-- The names of a list can all be looked up. -/
theorem safe_names {r : ListRef .nameItem} (h : A.Has (.list r)) :
    Safe (A.names r) := by
  obtain ⟨items, hslice, hitems⟩ := exists_items h
  refine .of_ok hitems (.mapM
    fun item hitem => safe_text (hforest.has_of_item hslice hitem ?_))
  cases item with
  | nameItem name => exact Multiset.mem_singleton_self _

theorem safe_lengthText {whole : Span} {length : LengthRef}
    (h : ∀ link ∈ length.links, A.Has link) : Safe (A.lengthText whole length) := by
  cases length with
  | ellipsis => exact .unsupported _
  | expr id =>
    obtain ⟨cell, hcell, hnode⟩ :=
      exists_node (h (.node id) (Multiset.mem_singleton_self _))
    refine .of_ok hnode ?_
    cases cell with
    | length node span =>
      have hlinks : ∀ link ∈ node.links, A.Has link :=
        fun link hlink => hforest.has_of_cell hcell hlink
      cases node with
      | ident name => exact safe_text (hlinks _ (Multiset.mem_singleton_self _))
      | selector pkg sel => exact safe_qualifiedText hlinks
      | literal kind symbol =>
        exact safe_text (hlinks _ (Multiset.mem_singleton_self _))
      | other => exact .unsupported _

section Inner

variable {inner : NodeId .type → Except Interrupt String}

/-- The text of every type that the link leads to can be written. -/
def InnerSafe (A : Arena hash) (inner : NodeId .type → Except Interrupt String)
    (link : Link) : Prop :=
  ∀ id : NodeId .type, A.Has (.node id) → A.Leads link ⟨.type, id.raw.toNat⟩ →
    Safe (inner id)

/-- A group of parameters is written if its type is. -/
theorem safe_groupText {id : NodeId .field} (h : A.Has (.node id))
    (hinner : A.InnerSafe inner (.node id)) : Safe (A.groupText inner id) := by
  obtain ⟨cell, hcell, hnode⟩ := exists_node h
  refine .of_ok hnode ?_
  cases cell with
  | field node span =>
    have hnames : Link.list node.names ∈ (Cell.field node span).links :=
      Multiset.mem_add.mpr (.inl (mem_singleton_add _ _))
    have htype := mem_links_field_type node span
    refine .bind (safe_names hforest (hforest.has_of_cell hcell hnames))
      fun _ _ => .bind ?_ fun _ _ => .ok _
    exact hinner _ (hforest.has_of_cell hcell htype)
      ((leads_node _).of_node hcell htype)

/-- The fields of a list. -/
theorem exists_fieldIds {r : ListRef .fieldItem} (h : A.Has (.list r))
    (hinner : A.InnerSafe inner (.list r)) :
    ∃ ids, A.fieldIds r = .ok ids ∧ ∀ id ∈ ids,
      A.Has (.node id) ∧ A.InnerSafe inner (.node id) := by
  obtain ⟨items, hslice, hitems⟩ := exists_items h
  refine ⟨items.map Cell.fieldId, ?_, ?_⟩
  · unfold fieldIds
    rw [hitems]
    rfl
  · intro id hid
    obtain ⟨item, hitem, rfl⟩ := List.mem_map.mp hid
    have hlink : Link.node item.fieldId ∈ item.links := by
      cases item with
      | fieldItem id => exact Multiset.mem_singleton_self _
    refine ⟨hforest.has_of_item hslice hitem hlink, fun type htype hleads => ?_⟩
    exact hinner type htype (hleads.of_list hslice hitem hlink)

/-- Results are written if their types are. -/
theorem safe_resultsText {ids : List (NodeId .field)}
    (h : ∀ id ∈ ids, A.Has (.node id) ∧ A.InnerSafe inner (.node id)) :
    Safe (A.resultsText inner ids) := by
  have hlisted : Safe (A.listedResults inner ids) :=
    .bind (.mapM fun id hid => safe_groupText hforest (h id hid).1 (h id hid).2)
      fun _ _ => .ok _
  match ids with
  | [] => exact .ok ""
  | [only] =>
    obtain ⟨hhas, hinner⟩ := h only (List.mem_singleton_self _)
    obtain ⟨cell, hcell, hnode⟩ := exists_node hhas
    refine .of_ok hnode ?_
    split
    · refine .bind ?_ fun _ _ => .ok _
      cases cell with
      | field node span =>
        have htype := mem_links_field_type node span
        exact hinner _ (hforest.has_of_cell hcell htype)
          ((leads_node _).of_node hcell htype)
    · exact hlisted
  | _ :: _ :: _ => exact hlisted

/-- A signature is written if the types in it are. -/
theorem safe_signatureText {id : NodeId .signature} (h : A.Has (.node id))
    (hinner : A.InnerSafe inner (.node id)) : Safe (A.signatureText inner id) := by
  obtain ⟨cell, hcell, hnode⟩ := exists_node h
  refine .of_ok hnode ?_
  cases cell with
  | signature params results span =>
    have hfields : ∀ r : ListRef .fieldItem,
      Link.list r ∈ (Cell.signature params results span).links →
        ∃ ids, A.fieldIds r = .ok ids ∧ ∀ id ∈ ids,
          A.Has (.node id) ∧ A.InnerSafe inner (.node id) := by
      intro r hr
      refine exists_fieldIds hforest (hforest.has_of_cell hcell hr)
        fun type htype hleads => ?_
      exact hinner type htype (hleads.of_node hcell hr)
    obtain ⟨paramIds, hparams, hsafeParams⟩ := hfields params (mem_singleton_add _ _)
    obtain ⟨resultIds, hresults, hsafeResults⟩ :=
      hfields results (mem_add_singleton _ _)
    refine .of_ok hparams (.bind (.mapM fun id hid => ?_) fun _ _ => ?_)
    · exact safe_groupText hforest (hsafeParams id hid).1 (hsafeParams id hid).2
    · exact .of_ok hresults (.bind (safe_resultsText hforest hsafeResults)
        fun _ _ => .ok _)

/-- **The text of a node is written if the texts of the types that it
refers to are.** -/
theorem safe_formText {id : NodeId .type} {node : TypeNode} {span : Span}
    (hcell : A.cell? id = some (.type node span))
    (hinner : ∀ link ∈ node.links, A.InnerSafe inner link) :
    Safe (A.formText inner span node) := by
  have hlinks : ∀ link ∈ node.links, A.Has link :=
    fun link hlink => hforest.has_of_cell hcell hlink
  have hchild : ∀ child : NodeId .type, Link.node child ∈ node.links →
      Safe (inner child) :=
    fun child hmem => hinner _ hmem child (hlinks _ hmem) (leads_node child)
  cases node with
  | plain name => exact safe_text (hlinks _ (Multiset.mem_singleton_self _))
  | qualified pkg name => exact safe_qualifiedText hlinks
  | applied base args =>
    have hargs : Link.list args ∈ (TypeNode.applied base args).links :=
      mem_add_singleton _ _
    obtain ⟨items, hslice, hitems⟩ := exists_items (hlinks _ hargs)
    refine .bind (hchild base (mem_singleton_add _ _)) fun _ _ => ?_
    refine .of_ok hitems (.bind (.mapM fun item hitem => ?_) fun _ _ => .ok _)
    cases item with
    | typeItem arg =>
      have hlink : Link.node arg ∈ (Cell.typeItem arg).links :=
        Multiset.mem_singleton_self _
      exact hinner _ hargs arg (hforest.has_of_item hslice hitem hlink)
        ((leads_node arg).of_list hslice hitem hlink)
  | array length elem =>
    refine .bind (safe_lengthText hforest
      fun link hlink => hlinks link (Multiset.mem_add.mpr (.inl hlink))) fun _ _ => ?_
    exact .bind (hchild elem (mem_add_singleton _ _)) fun _ _ => .ok _
  | map key value =>
    refine .bind (hchild key (mem_singleton_add _ _)) fun _ _ => ?_
    exact .bind (hchild value (mem_add_singleton _ _)) fun _ _ => .ok _
  | func signature =>
    have hlink : Link.node signature ∈ (TypeNode.func signature).links :=
      Multiset.mem_singleton_self _
    exact safe_signatureText hforest (hlinks _ hlink) (hinner _ hlink)
  | struct | interface => exact .ok _
  | paren | union => exact .unsupported _
  | pointer elem | slice elem | chan dir elem | variadic elem =>
    exact .bind (hchild elem (Multiset.mem_singleton_self _)) fun _ _ => .ok _

end Inner

/-- **The text of every type in a forest can be written** in as many rounds as
its number says, and one more. -/
theorem safe_render (rounds : Nat) :
    ∀ {id : NodeId .type}, A.Has (.node id) → id.raw.toNat < rounds →
    Safe (A.render rounds id) := by
  induction rounds with
  | zero => intro id _ hlt; exact absurd hlt (Nat.not_lt_zero _)
  | succ rounds ih =>
    intro id hhas hlt
    obtain ⟨cell, hcell, hnode⟩ := exists_node hhas
    refine .of_ok hnode ?_
    cases cell with
    | type node span =>
      -- one round less is enough for the types below, because their
      -- numbers are smaller
      refine safe_formText hforest hcell
        fun link hlink child hchild hleads => ih hchild ?_
      have hbelow := hforest.lt_of_leads hcell hlink hleads
      omega

end Safe

/-! ## The text is that of the type -/

section Texts

variable {hash : String → UInt64} {k : CellKind} {α β : Type} {A : Arena hash}
  {inner : NodeId .type → Except Interrupt String}

/-- A qualified name has the text of its two parts. -/
theorem qualifiedText_of_holds {pkg' name' : IdentRef} {pkg name : Ident}
    (hpkg : A.HoldsIdent pkg' pkg) (hname : A.HoldsIdent name' name) :
    A.qualifiedText pkg' name' = .ok (pkg.name ++ "." ++ name.name) := by
  unfold qualifiedText
  rw [text_of_holds hpkg, text_of_holds hname]
  rfl

/-- A length has the text that the tree gives it, or none, as there. -/
theorem lengthText_of_holds {whole : Span} {ref : LengthRef} {length : ArrayLength}
    (h : A.HoldsLength ref length) :
    A.lengthText whole ref = ofRender (length.render whole) := by
  unfold lengthText
  cases h with
  | ellipsis => rfl
  | ident hcell hname =>
    dsimp only
    rw [node_of_cell hcell]
    exact text_of_holds hname
  | selector hcell hpkg hsel =>
    dsimp only
    rw [node_of_cell hcell]
    exact qualifiedText_of_holds hpkg hsel
  | literal hcell htext =>
    dsimp only
    rw [node_of_cell hcell]
    show found (A.text? _) = _
    rw [htext]
    rfl
  | other hcell =>
    dsimp only
    rw [node_of_cell hcell]
    rfl

/-- The text of every type that the link leads to is written as it should be. -/
def InnerAgrees (A : Arena hash) (inner : NodeId .type → Except Interrupt String)
    (link : Link) : Prop :=
  ∀ (id : NodeId .type) (t : TypeExpr), A.HoldsType id t →
    A.Leads link ⟨.type, id.raw.toNat⟩ → inner id = ofRender t.render

/-- If the text of each type of a list is written as it should be, so are all. -/
theorem mapM_inner {ids : List (NodeId .type)} {types : List TypeExpr}
    (h : List.Forall₂ (fun id t => inner id = ofRender t.render) ids types) :
    ids.mapM inner = ofRender (renderTypes types) := by
  induction h with
  | nil => rfl
  | cons hfirst _ ih =>
    rw [List.mapM_cons, hfirst, ih, renderTypes, ofRender_bind]
    refine bind_congr fun text => ?_
    rw [ofRender_bind]
    rfl

section Fields

variable {T : Option StringRef → Option StringLit → Prop}

/-- A group of parameters has the text of the field that it holds. -/
theorem groupText_of_holds {id : NodeId .field} {field : Field TypeExpr}
    (h : A.HoldsField T A.HoldsType id field)
    (hinner : A.InnerAgrees inner (.node id)) :
    A.groupText inner id
      = ofRender (field.type.render
      >>= fun text => pure (namedText field.names text)) := by
  cases h with
  | @mk raw names type tag field hcell hnames htype =>
    have hlink := mem_links_field_type ⟨names, type, tag⟩ field.span
    unfold groupText
    rw [node_of_cell hcell]
    show (A.names names >>= fun names => inner type >>= fun text => _) = _
    rw [names_of_holds hnames, hinner type field.type htype
      ((leads_node type).of_node hcell hlink), ofRender_bind]
    show (ofRender field.type.render >>= fun text => _) = _
    refine bind_congr fun text => ?_
    unfold namedText
    rw [List.isEmpty_map]
    rfl

theorem mapM_groupText {ids : List (NodeId .field)} {fields : List (Field TypeExpr)}
    (h : List.Forall₂ (A.HoldsField T A.HoldsType) ids fields)
    (hinner : ∀ id ∈ ids, A.InnerAgrees inner (.node id)) :
    ids.mapM (A.groupText inner) = ofRender (renderFields fields) := by
  induction h with
  | nil => rfl
  | cons hfirst _ ih =>
    obtain ⟨hid, hids⟩ := List.forall_mem_cons.mp hinner
    rw [List.mapM_cons, groupText_of_holds hfirst hid, ih hids, renderFields_cons]
    simp only [ofRender_bind, bind_assoc]
    rfl

/-- The fields of a list that is held. -/
theorem fieldIds_of_leads {r : ListRef .fieldItem} {fields : List (Field TypeExpr)}
    (h : A.HoldsList .fieldItem (A.HoldsField T A.HoldsType) r fields)
    (hinner : A.InnerAgrees inner (.list r)) :
    ∃ ids, A.fieldIds r = .ok ids ∧
      List.Forall₂ (A.HoldsField T A.HoldsType) ids fields ∧
      ∀ id ∈ ids, A.InnerAgrees inner (.node id) := by
  cases h with
  | @mk start len refs _ hslice hrefs =>
    refine ⟨refs, ?_, hrefs, fun id hid type t htype hleads => hinner type t htype ?_⟩
    · unfold fieldIds items
      rw [hslice]
      show Except.ok ((refs.map Cell.fieldItem).map Cell.fieldId) = _
      rw [List.map_map]
      exact congrArg Except.ok (List.map_id refs)
    · exact hleads.of_list hslice (List.mem_map_of_mem hid)
        (Multiset.mem_singleton_self _)

/-- There are as many names as the list is long. -/
theorem len_eq_zero_iff {r : ListRef .nameItem} {names : List Ident}
    (h : A.HoldsNames r names) : r.len = 0 ↔ names = [] := by
  cases h with
  | @mk start len refs _ hslice hrefs =>
    have hlength := length_slice? hslice
    rw [List.length_map, hrefs.length_eq] at hlength
    show len = 0 ↔ names = []
    rw [← List.length_eq_zero_iff, hlength, ← UInt32.toNat_inj]
    rfl

/-- Results have the text of the fields that they hold. -/
theorem resultsText_of_holds {ids : List (NodeId .field)}
    {fields : List (Field TypeExpr)}
    (h : List.Forall₂ (A.HoldsField T A.HoldsType) ids fields)
    (hinner : ∀ id ∈ ids, A.InnerAgrees inner (.node id)) :
    A.resultsText inner ids
      = ofRender (renderFields fields
      >>= fun texts => pure (resultText fields texts)) := by
  have hlisted : A.listedResults inner ids
      = ofRender (renderFields fields
        >>= fun texts => pure (" (" ++ commaJoin texts ++ ")")) := by
    unfold listedResults
    rw [mapM_groupText h hinner, ofRender_bind]
    rfl
  cases h with
  | nil => rfl
  | @cons id field ids fields hfirst hrest =>
    cases hrest with
    | cons => exact hlisted
    | nil =>
      cases hfirst with
      | @mk raw names type tag _ hcell hnames htype =>
        have hlink := mem_links_field_type ⟨names, type, tag⟩ field.span
        have htext : inner type = ofRender field.type.render :=
          hinner _ (List.mem_singleton_self _) type field.type htype
            ((leads_node type).of_node hcell hlink)
        unfold resultsText
        dsimp only
        rw [node_of_cell hcell]
        -- the arena has only the length of the list, and the tree the
        -- names themselves
        show (if names.len = 0 then inner type >>= fun text => pure (" " ++ text)
          else A.listedResults inner _) = _
        by_cases hnone : field.names = []
        · have hbare : isBareResult [field] = true := by simp [isBareResult, hnone]
          have hnamed : ∀ text, namedText field.names text = text := by
            simp [namedText, hnone]
          rw [if_pos ((len_eq_zero_iff hnames).mpr hnone), htext, renderFields_cons,
            renderFields]
          unfold resultText
          simp only [ofRender_bind, bind_assoc, hbare, hnamed]
          rfl
        · rw [if_neg fun hlen => hnone ((len_eq_zero_iff hnames).mp hlen), hlisted]
          have hbare : isBareResult [field] = false := by
            cases hnames' : field.names with
            | nil => exact absurd hnames' hnone
            | cons => simp [isBareResult, hnames']
          unfold resultText
          rw [hbare]
          rfl

/-- A signature has the text of the function type with it. -/
theorem signatureText_of_holds {id : NodeId .signature} {sig : Signature TypeExpr}
    {span : Span} (h : A.HoldsSignature A.HoldsType id sig)
    (hinner : A.InnerAgrees inner (.node id)) :
    A.signatureText inner id = ofRender (TypeExpr.func span sig).render := by
  cases h with
  | @mk raw params results sig hcell hparams hresults =>
    have hfields : ∀ r : ListRef .fieldItem,
      Link.list r ∈ (Cell.signature params results sig.span).links →
        A.InnerAgrees inner (.list r) :=
      fun r hr type t htype hleads => hinner type t htype (hleads.of_node hcell hr)
    obtain ⟨paramIds, hparamIds, hholdsParams, hparamTexts⟩ :=
      fieldIds_of_leads hparams
      (hfields params (mem_singleton_add _ _))
    obtain ⟨resultIds, hresultIds, hholdsResults, hresultTexts⟩ :=
      fieldIds_of_leads hresults
      (hfields results (mem_add_singleton _ _))
    unfold signatureText
    rw [node_of_cell hcell]
    show (A.fieldIds params >>= fun paramIds =>
      paramIds.mapM (A.groupText inner) >>= fun paramTexts =>
      A.fieldIds results >>= fun resultIds =>
        A.resultsText inner resultIds >>= fun text => _) = _
    rw [hparamIds, hresultIds]
    show (paramIds.mapM (A.groupText inner)
      >>= fun paramTexts => A.resultsText inner resultIds >>= fun text => _) = _
    rw [mapM_groupText hholdsParams hparamTexts,
      resultsText_of_holds hholdsResults hresultTexts]
    obtain ⟨params, results, sigSpan⟩ := sig
    rw [TypeExpr.render]
    simp only [ofRender_bind, bind_assoc]
    rfl

end Fields

/-- The texts of the arguments of a type. -/
theorem mapM_items_of_holds {r : ListRef .typeItem} {types : List TypeExpr}
    (h : A.HoldsList .typeItem A.HoldsType r types)
    (hinner : A.InnerAgrees inner (.list r)) :
    ∃ items, A.items r = .ok items ∧
      (items.mapM fun item => inner item.typeId) = ofRender (renderTypes types) := by
  cases h with
  | @mk start len refs _ hslice hrefs =>
    refine ⟨_, items_of_slice hslice, ?_⟩
    have hbelow : ∀ ref ∈ refs,
        A.Leads (.list (⟨start, len⟩ : ListRef .typeItem))
        ⟨.type, ref.raw.toNat⟩ := by
      intro ref href
      have hmem : Cell.typeItem ref ∈ refs.map Cell.typeItem :=
        List.mem_map_of_mem href
      exact (leads_node ref).of_list hslice hmem (Multiset.mem_singleton_self _)
    have htexts : List.Forall₂ (fun ref t => inner ref = ofRender t.render)
        refs types :=
      ((List.forall₂_and_left refs types).mpr ⟨hbelow, hrefs⟩).imp
        fun ref t h => hinner ref t h.2 h.1
    rw [List.mapM_map]
    exact mapM_inner htexts

/-- With a round left, the text of a type is that of its node. -/
theorem render_succ {id : NodeId .type} {node : TypeNode} {span : Span}
    (h : A.cell? id = some (.type node span)) (rounds : Nat) :
    A.render (rounds + 1) id = A.formText (A.render rounds) span node := by
  rw [render, node_of_cell h]
  rfl

/-- **In a forest that holds a type its text is written**, in as many rounds as
its number says, and one more. -/
theorem render_of_holds {held : Multiset Link} (hforest : A.Forest held)
    (rounds : Nat) :
    ∀ {id : NodeId .type} {t : TypeExpr}, A.HoldsType id t → id.raw.toNat < rounds →
      A.render rounds id = ofRender t.render := by
  induction rounds with
  | zero => intro id t _ hlt; exact absurd hlt (Nat.not_lt_zero _)
  | succ rounds ih =>
    intro id t hholds hlt
    have hinner : ∀ {node : TypeNode} {span : Span},
      A.cell? id = some (.type node span) → ∀ link ∈ node.links,
        A.InnerAgrees (A.render rounds) link := by
      intro node span hcell link hlink child c hchild hleads
      have hbelow := hforest.lt_of_leads hcell hlink hleads
      exact ih hchild (by omega)
    cases hholds with
    | named hname =>
      cases hname with
      | plain hcell hname =>
        exact (render_succ hcell rounds).trans (text_of_holds hname)
      | qualified hcell hpkg hname =>
        exact (render_succ hcell rounds).trans (qualifiedText_of_holds hpkg hname)
    | @applied _ base' args' span base args hcell hbase hargs =>
      rw [render_succ hcell]
      have hbaseText :=
        hinner hcell (.node base') (mem_singleton_add _ _) base' _ (.named hbase)
        (leads_node base')
      obtain ⟨items, hitems, htexts⟩ :=
        mapM_items_of_holds hargs (hinner hcell (.list args') (mem_add_singleton _ _))
      unfold formText
      dsimp only
      rw [hbaseText, hitems]
      show (items.mapM (fun item => A.render rounds item.typeId) >>= fun texts => _)
        = _
      rw [htexts, TypeExpr.render, ofRender_bind]
      rfl
    | @array _ elem' length' span length elem hcell hlength helem =>
      have htext := hinner hcell (.node elem') (mem_add_singleton _ _) elem' _ helem
        (leads_node elem')
      rw [render_succ hcell, formText, lengthText_of_holds hlength, htext,
        TypeExpr.render]
      simp only [ofRender_bind]
      rfl
    | @map _ key' value' span key value hcell hkey hvalue =>
      have hkeyText :=
        hinner hcell (.node key') (mem_singleton_add _ _) key' _ hkey
        (leads_node key')
      have htext := hinner hcell (.node value') (mem_add_singleton _ _)
        value' _ hvalue (leads_node value')
      rw [render_succ hcell, formText, hkeyText, htext, TypeExpr.render]
      simp only [ofRender_bind]
      rfl
    | func hcell hsig =>
      rw [render_succ hcell, formText]
      exact signatureText_of_holds hsig
        (hinner hcell _ (Multiset.mem_singleton_self _))
    | struct hcell | interface hcell | paren hcell | union hcell =>
      rw [render_succ hcell, TypeExpr.render]
      rfl
    | pointer hcell helem | slice hcell helem | chan hcell helem
        | variadic hcell helem =>
      have htext :=
        hinner hcell _ (Multiset.mem_singleton_self _) _ _ helem (leads_node _)
      rw [render_succ hcell, formText, htext, TypeExpr.render, ofRender_bind]
      rfl

end Texts

end Arena

end GoInventory
