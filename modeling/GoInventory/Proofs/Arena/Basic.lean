import GoInventory.Proofs.Arena.Symbols
import GoInventory.Syntax.Tree
import Mathlib.Algebra.Group.Nat.Defs
import Mathlib.Data.List.Infix
import Mathlib.Logic.Function.Basic

/-!
# Arenas

A file can be kept without pointers. Types, fields, signatures, array lengths
and declarations are nodes in arrays of their own, and a node goes by its
index. Lists stand in arrays too, one for each kind of item, and a list is the
place where it starts and its length. Texts are entered in a symbol table and
go by their number. All these numbers have 32 bits, and what does not fit is
cut off without notice.

An arena only ever grows: new nodes and items are put behind the others
(`Arena.extend`), so what was found in it is found in it again
(`Arena.Extends`). As long as every array is shorter than 32 bits can count
(`Arena.Fits`), a number that is handed out leads to what it was handed out for
(`Arena.cell?_alloc`, `Arena.slice?_list`, `Arena.text?_intern`).
-/

namespace GoInventory

/-- What an arena has arrays of: five kinds of node, and six kinds of item that
lists are made of. -/
inductive CellKind where
  | type | field | signature | length | decl
  | nameItem | declItem | specItem | typeItem | fieldItem | termItem
deriving DecidableEq, Repr

/-- The number of a node of this kind. -/
structure NodeId (k : CellKind) where
  raw : UInt32
deriving DecidableEq, Repr

/-- A list of items of this kind: where it starts in their array, and
how long it is. -/
structure ListRef (k : CellKind) where
  start : UInt32
  len : UInt32
deriving DecidableEq, Repr

/-- The list without items that belongs to no place. -/
def ListRef.empty {k : CellKind} : ListRef k := ⟨0, 0⟩

/-- An identifier in its place. -/
structure IdentRef where
  symbol : UInt32
  span : Span
deriving DecidableEq, Repr

/-- A string literal in its place. -/
structure StringRef where
  kind : StringKind
  symbol : UInt32
  span : Span
deriving DecidableEq, Repr

/-- An array length that is an expression. -/
inductive LengthNode where
  | ident (name : IdentRef)
  | selector (pkg sel : IdentRef)
  | literal (kind : LiteralKind) (symbol : UInt32)
  | other
deriving DecidableEq, Repr

/-- What stands between the brackets of an array type. -/
inductive LengthRef where
  | expr (id : NodeId .length)
  | ellipsis
deriving DecidableEq, Repr

/-- The forms of type. -/
inductive TypeNode where
  | plain (name : IdentRef)
  | qualified (pkg name : IdentRef)
  | applied (base : NodeId .type) (args : ListRef .typeItem)
  | pointer (elem : NodeId .type)
  | array (length : LengthRef) (elem : NodeId .type)
  | slice (elem : NodeId .type)
  | map (key value : NodeId .type)
  | chan (dir : ChanDir) (elem : NodeId .type)
  | func (signature : NodeId .signature)
  | struct (fields : ListRef .fieldItem)
  | interface (elems : ListRef .fieldItem)
  | variadic (elem : NodeId .type)
  | paren (elem : NodeId .type)
  | union (terms : ListRef .termItem)
deriving DecidableEq, Repr

/-- Names that share a type. -/
structure FieldNode where
  names : ListRef .nameItem
  type : NodeId .type
  tag : Option StringRef
deriving DecidableEq, Repr

/-- One import, the names of some values, or one type. -/
inductive SpecNode where
  | imports (name : Option IdentRef) (path : StringRef)
  | values (names : ListRef .nameItem) (type : Option (NodeId .type))
      (values : Option Span)
  | type (name : IdentRef) (typeParams : ListRef .fieldItem) (isAlias : Bool)
      (type : NodeId .type)
deriving DecidableEq, Repr

/-- The keywords that declarations other than functions start with. -/
inductive GroupKind where
  | imports | consts | types | vars
deriving DecidableEq, Repr

/-- A top-level declaration. -/
inductive DeclNode where
  | group (kind : GroupKind) (specs : ListRef .specItem) (grouped : Bool)
  | func (receiver : Option (NodeId .field)) (name : IdentRef)
      (typeParams : ListRef .fieldItem)
    (signature : NodeId .signature) (body : Option Span)
deriving DecidableEq, Repr

/-- What stands in the arrays of an arena. Nodes have a span, items of
lists have none. -/
inductive Cell : CellKind → Type
  | type (node : TypeNode) (span : Span) : Cell .type
  | field (node : FieldNode) (span : Span) : Cell .field
  | signature (params results : ListRef .fieldItem) (span : Span) : Cell .signature
  | length (node : LengthNode) (span : Span) : Cell .length
  | decl (node : DeclNode) (span : Span) : Cell .decl
  | nameItem (name : IdentRef) : Cell .nameItem
  | declItem (id : NodeId .decl) : Cell .declItem
  | specItem (spec : SpecNode) : Cell .specItem
  | typeItem (id : NodeId .type) : Cell .typeItem
  | fieldItem (id : NodeId .field) : Cell .fieldItem
  | termItem (tilde : Bool) (type : NodeId .type) : Cell .termItem

/-- The nodes, list items and texts of one file. -/
structure Arena (hash : String → UInt64) where
  cells : (k : CellKind) → List (Cell k)
  symbols : SymbolTable hash

/-- A file in an arena. -/
structure StoredFile where
  package : IdentRef
  decls : ListRef .declItem
deriving DecidableEq, Repr

/-- Something that is put into an arena, and what it goes by there. -/
abbrev Store (hash : String → UInt64) (α : Type) : Type := StateM (Arena hash) α

namespace Arena

variable {hash : String → UInt64} {k : CellKind}

/-- An arena without anything. -/
def empty : Arena hash := ⟨fun _ => [], .empty⟩

/-- The arena with more cells behind the others of their kind. -/
def extend (A : Arena hash) (more : List (Cell k)) : Arena hash :=
  { A with cells := Function.update A.cells k (A.cells k ++ more) }

/-- Make a node. -/
def alloc (cell : Cell k) : Store hash (NodeId k) := fun A =>
  (⟨.ofNat (A.cells k).length⟩, A.extend [cell])

/-- Make a list. -/
def list (items : List (Cell k)) : Store hash (ListRef k) := fun A =>
  (⟨.ofNat (A.cells k).length, .ofNat items.length⟩, A.extend items)

/-- Enter a text. -/
def intern (text : String) : Store hash UInt32 := fun A =>
  (.ofNat (A.symbols.intern text).1.index,
    { A with symbols := (A.symbols.intern text).2 })

/-- The node with this number, if there is one. -/
def cell? (A : Arena hash) (id : NodeId k) : Option (Cell k) :=
  (A.cells k)[id.raw.toNat]?

/-- The items of a list, if it lies within the array. The end of the list is a
number of 32 bits. -/
def slice? (A : Arena hash) (r : ListRef k) : Option (List (Cell k)) :=
  if r.start ≤ r.start + r.len ∧ (r.start + r.len).toNat ≤ (A.cells k).length then
    some (((A.cells k).take (r.start + r.len).toNat).drop r.start.toNat)
  else none

/-- The text with this number, if there is one. -/
def text? (A : Arena hash) (symbol : UInt32) : Option String :=
  A.symbols.resolve? ⟨symbol.toNat⟩

/-! ## Growing -/

theorem cells_extend_self (A : Arena hash) (more : List (Cell k)) :
    (A.extend more).cells k = A.cells k ++ more :=
  Function.update_self ..

theorem cells_extend_of_ne (A : Arena hash) (more : List (Cell k)) {j : CellKind}
    (h : j ≠ k) : (A.extend more).cells j = A.cells j :=
  Function.update_of_ne h ..

/-- Everything that is in one arena is in the other too, at the same place. -/
structure Extends (A B : Arena hash) : Prop where
  cells : ∀ k, A.cells k <+: B.cells k
  symbols : A.symbols.strings.toList <+: B.symbols.strings.toList

theorem Extends.refl (A : Arena hash) : A.Extends A :=
  ⟨fun _ => List.prefix_refl _, List.prefix_refl _⟩

theorem Extends.trans {A B C : Arena hash} (hab : A.Extends B) (hbc : B.Extends C) :
    A.Extends C :=
  ⟨fun k => (hab.cells k).trans (hbc.cells k), hab.symbols.trans hbc.symbols⟩

theorem extends_extend (A : Arena hash) (more : List (Cell k)) :
    A.Extends (A.extend more) := by
  refine ⟨fun j => ?_, List.prefix_refl _⟩
  by_cases hj : j = k
  · subst hj
    rw [cells_extend_self]
    exact List.prefix_append _ _
  · rw [cells_extend_of_ne A more hj]

theorem extends_intern (A : Arena hash) (text : String) :
    A.Extends (intern text A).2 :=
  ⟨fun _ => List.prefix_refl _, A.symbols.strings_intern text⟩

/-- No array is longer than the numbers of 32 bits can count. -/
structure Fits (A : Arena hash) : Prop where
  cells : ∀ k, (A.cells k).length < 2 ^ 32
  symbols : A.symbols.strings.size < 2 ^ 32

theorem Extends.fits {A B : Arena hash} (h : A.Extends B) (hB : B.Fits) : A.Fits := by
  refine ⟨fun k => lt_of_le_of_lt (h.cells k).length_le (hB.cells k), ?_⟩
  have hle := h.symbols.length_le
  rw [Array.length_toList, Array.length_toList] at hle
  exact lt_of_le_of_lt hle hB.symbols

/-! ## What was found is found again -/

theorem getElem?_of_isPrefix {α : Type} {as bs : List α} (h : as <+: bs) {i : Nat}
    {a : α} (ha : as[i]? = some a) : bs[i]? = some a := by
  obtain ⟨more, rfl⟩ := h
  rw [List.getElem?_append_left (List.getElem?_eq_some_iff.mp ha).1, ha]

variable {A B : Arena hash}

theorem Extends.cell? (h : A.Extends B) {id : NodeId k} {cell : Cell k}
    (hcell : A.cell? id = some cell) : B.cell? id = some cell :=
  getElem?_of_isPrefix (h.cells k) hcell

theorem Extends.slice? (h : A.Extends B) {r : ListRef k} {items : List (Cell k)}
    (hslice : A.slice? r = some items) : B.slice? r = some items := by
  unfold Arena.slice? at hslice ⊢
  split at hslice
  next hbounds =>
    obtain ⟨more, hmore⟩ := h.cells k
    have hlength := (h.cells k).length_le
    rw [if_pos ⟨hbounds.1, hbounds.2.trans hlength⟩, ← hslice, ← hmore,
      List.take_append_of_le_length hbounds.2]
  next => cases hslice

theorem Extends.text? (h : A.Extends B) {symbol : UInt32} {text : String}
    (htext : A.text? symbol = some text) : B.text? symbol = some text := by
  unfold Arena.text? SymbolTable.resolve? at htext ⊢
  rw [← Array.getElem?_toList] at htext ⊢
  exact getElem?_of_isPrefix h.symbols htext

theorem toNat_ofNat_length {n : Nat} (h : n < 2 ^ 32) : (UInt32.ofNat n).toNat = n :=
  UInt32.toNat_ofNat_of_lt' h

/-- A number leads to the node that it was handed out for. -/
theorem cell?_alloc {cell : Cell k} (h : (alloc cell A).2.Fits) :
    (alloc cell A).2.cell? (alloc cell A).1 = some cell := by
  have hbound : (A.cells k).length < 2 ^ 32 :=
    (extends_extend A [cell]).fits h |>.cells k
  show ((A.extend [cell]).cells k)[(UInt32.ofNat (A.cells k).length).toNat]?
    = some cell
  rw [toNat_ofNat_length hbound, cells_extend_self, List.getElem?_concat_length]

/-- The end of a list, if the list lies within an array that is not too long. -/
theorem toNat_start_add_len {A : Arena hash} {items : List (Cell k)}
    (h : (list items A).2.Fits) :
    ((list items A).1.start + (list items A).1.len).toNat
      = (A.cells k).length + items.length ∧
      (list items A).1.start.toNat = (A.cells k).length ∧
        (list items A).1.len.toNat = items.length := by
  have hlength : (A.cells k).length + items.length < 2 ^ 32 := by
    have hfits := h.cells k
    rwa [list, cells_extend_self, List.length_append] at hfits
  have hstart : (UInt32.ofNat (A.cells k).length).toNat = (A.cells k).length :=
    toNat_ofNat_length (by omega)
  have hlen : (UInt32.ofNat items.length).toNat = items.length :=
    toNat_ofNat_length (by omega)
  refine ⟨?_, hstart, hlen⟩
  show (UInt32.ofNat (A.cells k).length + UInt32.ofNat items.length).toNat = _
  rw [UInt32.toNat_add, hstart, hlen]
  exact Nat.mod_eq_of_lt hlength

/-- The place of a list leads to its items. -/
theorem slice?_list {items : List (Cell k)} (h : (list items A).2.Fits) :
    (list items A).2.slice? (list items A).1 = some items := by
  obtain ⟨hstop, hstart, -⟩ := toNat_start_add_len h
  have hcells : (list items A).2.cells k = A.cells k ++ items :=
    cells_extend_self A items
  unfold slice?
  rw [hstop, hstart, hcells, List.length_append, if_pos, ← List.length_append,
    List.take_length, List.drop_left]
  refine ⟨?_, le_refl _⟩
  rw [UInt32.le_iff_toNat_le, hstop, hstart]
  exact Nat.le_add_right _ _

theorem slice?_empty (A : Arena hash) : A.slice? (.empty : ListRef k) = some [] := by
  unfold slice? ListRef.empty
  simp

/-- The number of a text leads to it. -/
theorem text?_intern {text : String} (h : (intern text A).2.Fits) :
    (intern text A).2.text? (intern text A).1 = some text := by
  have hresolve := A.symbols.resolve?_intern text
  have hindex : (A.symbols.intern text).1.index < 2 ^ 32 := by
    unfold SymbolTable.resolve? at hresolve
    obtain ⟨hlt, -⟩ := Array.getElem?_eq_some_iff.mp hresolve
    exact lt_trans hlt h.symbols
  show (A.symbols.intern text).2.resolve?
    ⟨(UInt32.ofNat (A.symbols.intern text).1.index).toNat⟩ = some text
  rw [toNat_ofNat_length hindex]
  exact hresolve

end Arena

end GoInventory
