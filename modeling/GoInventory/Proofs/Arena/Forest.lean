import GoInventory.Proofs.Arena.Basic
import Mathlib.Algebra.BigOperators.Group.Finset.Piecewise
import Mathlib.Data.Multiset.Bind
import Mathlib.Logic.Relation

/-!
# The nodes of an arena form a forest

What is stored of other nodes, lists and texts are links. Those that are in no
cell yet are held by whoever fills the arena: each one is handed out once, when
what it leads to is made, and given up once, when it is put into a cell. So the
links are like the tokens of a linear logic, and the pair of an arena and the
links held is a state of a machine with four moves (`Arena.Step`): make a node,
make a list, enter a text, or take the list without items.

`Arena.Forest` is what every move keeps, as long as the numbers suffice: all
links lead to something, every node and list item is linked to from exactly one
place, is reached from a link that is held, and the numbers of types descend
along every path. Texts are shared, and all that is asked of them is that they
are there, also for the symbols that others are looked up by
(`SymbolTable.Entered`). The reason why numbers descend is in one move already
(`Arena.Forest.extend`): a new cell is behind all others of its kind, and what
it links to was there before.
-/

namespace GoInventory

open Relation (ReflTransGen TransGen)

instance : Fintype CellKind where
  elems := {.type, .field, .signature, .length, .decl, .nameItem, .declItem,
    .specItem, .typeItem, .fieldItem, .termItem}
  complete := by
    intro k
    cases k <;> decide

/-- The place of a node or list item. -/
structure Ref where
  kind : CellKind
  index : Nat
deriving DecidableEq, Repr

/-- What leads from one place to others: the number of a node, the place of a
list, or the number of a text. -/
inductive Link where
  | node {k : CellKind} (id : NodeId k)
  | list {k : CellKind} (r : ListRef k)
  | symbol (s : UInt32)

namespace Link

/-- The places that a link leads to. A list leads to all its items. -/
def refs : Link → Multiset Ref
  | @node k id => {⟨k, id.raw.toNat⟩}
  | @list k r => (Multiset.range r.len.toNat).map fun i => ⟨k, r.start.toNat + i⟩
  | symbol _ => 0

end Link

/-! ## The links of a cell -/

def IdentRef.links (name : IdentRef) : Multiset Link := {.symbol name.symbol}

def StringRef.links (lit : StringRef) : Multiset Link := {.symbol lit.symbol}

def LengthNode.links : LengthNode → Multiset Link
  | ident name => name.links
  | selector pkg sel => pkg.links + sel.links
  | literal _ symbol => {.symbol symbol}
  | other => 0

def LengthRef.links : LengthRef → Multiset Link
  | expr id => {.node id}
  | ellipsis => 0

def TypeNode.links : TypeNode → Multiset Link
  | plain name => name.links
  | qualified pkg name => pkg.links + name.links
  | applied base args => {.node base} + {.list args}
  | array length elem => length.links + {.node elem}
  | map key value => {.node key} + {.node value}
  | func signature => {.node signature}
  | struct fields | interface fields => {.list fields}
  | union terms => {.list terms}
  | pointer elem | slice elem | chan _ elem | variadic elem | paren elem =>
    {.node elem}

/-- The links of a part that may be missing. -/
def optionLinks {α : Type} (links : α → Multiset Link) : Option α → Multiset Link
  | none => 0
  | some a => links a

/-- The link to a node. -/
def NodeId.links {k : CellKind} (id : NodeId k) : Multiset Link := {.node id}

def FieldNode.links (field : FieldNode) : Multiset Link :=
  {.list field.names} + {.node field.type} + optionLinks StringRef.links field.tag

def SpecNode.links : SpecNode → Multiset Link
  | imports name path => optionLinks IdentRef.links name + path.links
  | values names type? _ => {.list names} + optionLinks NodeId.links type?
  | type name typeParams _ id => name.links + {.list typeParams} + {.node id}

def DeclNode.links : DeclNode → Multiset Link
  | group _ specs _ => {.list specs}
  | func receiver name typeParams signature _ =>
    optionLinks NodeId.links receiver + name.links + {.list typeParams}
      + {.node signature}

def Cell.links {k : CellKind} : Cell k → Multiset Link
  | type node _ => node.links
  | field node _ => node.links
  | signature params results _ => {.list params} + {.list results}
  | length node _ => node.links
  | decl node _ => node.links
  | nameItem name => name.links
  | declItem id => {.node id}
  | specItem spec => spec.links
  | typeItem id => {.node id}
  | fieldItem id => {.node id}
  | termItem _ id => {.node id}

/-- The links of the file itself. -/
def StoredFile.links (file : StoredFile) : Multiset Link :=
  file.package.links + {.list file.decls}

/-- The links of several cells. -/
def linksOf {k : CellKind} (cells : List (Cell k)) : Multiset Link :=
  (cells.map Cell.links).sum

@[simp] theorem linksOf_nil {k : CellKind} : linksOf ([] : List (Cell k)) = 0 := rfl

@[simp] theorem linksOf_cons {k : CellKind} (cell : Cell k) (cells : List (Cell k)) :
    linksOf (cell :: cells) = cell.links + linksOf cells := List.sum_cons

@[simp] theorem linksOf_append {k : CellKind} (as bs : List (Cell k)) :
    linksOf (as ++ bs) = linksOf as + linksOf bs := by
  unfold linksOf
  rw [List.map_append, List.sum_append]

/-- A link of a list of cells is one of a cell in it. -/
theorem mem_linksOf {k : CellKind} {cells : List (Cell k)} {link : Link} :
    link ∈ linksOf cells ↔ ∃ cell ∈ cells, link ∈ cell.links := by
  induction cells with
  | nil => simp
  | cons cell cells ih => simp [ih]

namespace SymbolTable

variable {hash : String → UInt64}

/-- Every symbol in a bucket has a text. -/
def Entered (table : SymbolTable hash) : Prop :=
  ∀ h, ∀ s ∈ table.bucket h, s.index < table.strings.size

/-- Interning a text keeps every symbol valid. -/
theorem Entered.intern {table : SymbolTable hash} (h : table.Entered) (text : String) :
    (table.intern text).2.Entered := by
  unfold SymbolTable.intern
  cases table.find? text with
  | some s => exact h
  | none =>
    intro key s hs
    rw [bucket, Std.HashMap.getD_insert] at hs
    rw [Array.size_push]
    split at hs
    · rcases List.mem_append.mp hs with hs | hs
      · exact Nat.lt_succ_of_lt (h _ s hs)
      · rw [List.mem_singleton.mp hs]
        exact Nat.lt_succ_self _
    · exact Nat.lt_succ_of_lt (h key s hs)

end SymbolTable

namespace Arena

variable {hash : String → UInt64} {k : CellKind}

/-- The links of all cells. -/
def links (A : Arena hash) : Multiset Link := ∑ k, linksOf (A.cells k)

/-- The link leads to something: there is such a node, such a list within the
array, or such a text. -/
def Has (A : Arena hash) : Link → Prop
  | .node id => (A.cell? id).isSome
  | .list r => (A.slice? r).isSome
  | .symbol s => (A.text? s).isSome

/-- There is a node or list item in this place. -/
def Allocated (A : Arena hash) (r : Ref) : Prop := r.index < (A.cells r.kind).length

instance (A : Arena hash) (r : Ref) : Decidable (A.Allocated r) := Nat.decLt _ _

/-- The cell in the first place links to the second. -/
def Child (A : Arena hash) (r r' : Ref) : Prop :=
  ∃ cell ∈ (A.cells r.kind)[r.index]?, ∃ link ∈ cell.links, r' ∈ link.refs

/-- **The arena is a forest**, the trees of which hang from the links
that are held. -/
structure Forest (A : Arena hash) (held : Multiset Link) : Prop where
  /-- Every link leads to something. -/
  sound : ∀ link ∈ A.links + held, A.Has link
  /-- Every node and list item is linked to from exactly one place, and
  nothing else is. -/
  once : ∀ r, ((A.links + held).bind Link.refs).count r
    = if A.Allocated r then 1 else 0
  /-- Every node and list item is in a tree that hangs from a link held. -/
  reached : ∀ r, A.Allocated r →
    ∃ link ∈ held, ∃ top ∈ link.refs, ReflTransGen A.Child top r
  /-- Below a type there are only types with smaller numbers. -/
  descends : ∀ i j, TransGen A.Child ⟨.type, i⟩ ⟨.type, j⟩ → j < i
  /-- The symbols that texts are looked up by have texts. -/
  entered : A.symbols.Entered

/-! ## More cells -/

/-- New cells bring their links with them. -/
theorem links_extend (A : Arena hash) (more : List (Cell k)) :
    (A.extend more).links = A.links + linksOf more := by
  have hkind : ∀ j, linksOf ((A.extend more).cells j)
      = linksOf (A.cells j) + if j = k then linksOf more else 0 := by
    intro j
    by_cases hj : j = k
    · subst hj
      rw [cells_extend_self, linksOf_append, if_pos rfl]
    · rw [cells_extend_of_ne A more hj, if_neg hj, add_zero]
  unfold links
  rw [Finset.sum_congr rfl
    fun j _ => hkind j, Finset.sum_add_distrib, Finset.sum_ite_eq' Finset.univ k,
    if_pos (Finset.mem_univ k)]

/-- A link of an arena is one of a cell in it. -/
theorem mem_links {A : Arena hash} {link : Link} :
    link ∈ A.links ↔ ∃ k, ∃ cell ∈ A.cells k, link ∈ cell.links := by
  unfold links
  simp only [Multiset.mem_sum, Finset.mem_univ, true_and, mem_linksOf]

/-- The places of new cells. -/
def newRefs (A : Arena hash) (more : List (Cell k)) : Multiset Ref :=
  (Multiset.range more.length).map fun i => ⟨k, (A.cells k).length + i⟩

/-- The new places are those that were not there before. -/
theorem mem_newRefs {A : Arena hash} {more : List (Cell k)} {r : Ref} :
    r ∈ A.newRefs more ↔ ¬ A.Allocated r ∧ (A.extend more).Allocated r := by
  obtain ⟨j, n⟩ := r
  unfold newRefs Allocated
  simp only [Multiset.mem_map, Multiset.mem_range, Ref.mk.injEq, not_lt]
  constructor
  · rintro ⟨i, hi, rfl, rfl⟩
    rw [cells_extend_self, List.length_append]
    omega
  · rintro ⟨hold, hnew⟩
    by_cases hj : j = k
    · subst hj
      rw [cells_extend_self, List.length_append] at hnew
      exact ⟨n - (A.cells j).length, by omega, rfl, by omega⟩
    · rw [cells_extend_of_ne A more hj] at hnew
      omega

theorem allocated_extend {A : Arena hash} {more : List (Cell k)} {r : Ref}
    (h : A.Allocated r) : (A.extend more).Allocated r :=
  lt_of_lt_of_le h ((extends_extend A more).cells r.kind).length_le

/-- A place is old or new, and each new one is counted once. -/
theorem count_newRefs (A : Arena hash) (more : List (Cell k)) (r : Ref) :
    (if A.Allocated r then 1 else 0) + (A.newRefs more).count r
      = if (A.extend more).Allocated r then 1 else 0 := by
  have hnodup : (A.newRefs more).Nodup := by
    refine (Multiset.nodup_range _).map ?_
    intro i i' h
    have hindex : (A.cells k).length + i = (A.cells k).length + i' :=
      congrArg Ref.index h
    omega
  by_cases hold : A.Allocated r
  · have hmem : r ∉ A.newRefs more := fun h => (mem_newRefs.mp h).1 hold
    rw [if_pos hold, if_pos (allocated_extend hold),
      Multiset.count_eq_zero_of_notMem hmem]
  · rw [if_neg hold, zero_add]
    by_cases hnew : (A.extend more).Allocated r
    · rw [if_pos hnew, Multiset.count_eq_one_of_mem hnodup
        (mem_newRefs.mpr ⟨hold, hnew⟩)]
    · have hmem : r ∉ A.newRefs more := fun h => hnew (mem_newRefs.mp h).2
      rw [if_neg hnew, Multiset.count_eq_zero_of_notMem hmem]

/-- A link that leads to something does so however the arena grows. -/
theorem Extends.has {A B : Arena hash} (h : A.Extends B) {link : Link}
    (hlink : A.Has link) : B.Has link := by
  cases link with
  | node id =>
    obtain ⟨cell, hcell⟩ := Option.isSome_iff_exists.mp hlink
    exact Option.isSome_iff_exists.mpr ⟨cell, h.cell? hcell⟩
  | list r =>
    obtain ⟨items, hitems⟩ := Option.isSome_iff_exists.mp hlink
    exact Option.isSome_iff_exists.mpr ⟨items, h.slice? hitems⟩
  | symbol s =>
    obtain ⟨text, htext⟩ := Option.isSome_iff_exists.mp hlink
    exact Option.isSome_iff_exists.mpr ⟨text, h.text? htext⟩

/-- A place stays below another one however the arena grows. -/
theorem Extends.child {A B : Arena hash} (h : A.Extends B) {r r' : Ref}
    (hchild : A.Child r r') : B.Child r r' := by
  obtain ⟨cell, hcell, hlink⟩ := hchild
  exact ⟨cell, getElem?_of_isPrefix (h.cells r.kind) hcell, hlink⟩

/-- The cell in an old place is an old one. -/
theorem child_of_extend {A : Arena hash} {more : List (Cell k)} {r r' : Ref}
    (hold : A.Allocated r) (h : (A.extend more).Child r r') : A.Child r r' := by
  obtain ⟨cell, hcell, hlink⟩ := h
  obtain ⟨rest, hrest⟩ := (extends_extend A more).cells r.kind
  rw [← hrest, List.getElem?_append_left hold] at hcell
  exact ⟨cell, hcell, hlink⟩

/-- The cell in a new place is a new one. -/
theorem mem_of_newRefs {A : Arena hash} {more : List (Cell k)} {r r' : Ref}
    (hnew : r ∈ A.newRefs more) (h : (A.extend more).Child r r') :
    ∃ cell ∈ more, ∃ link ∈ cell.links, r' ∈ link.refs := by
  obtain ⟨i, -, rfl⟩ := Multiset.mem_map.mp hnew
  obtain ⟨cell, hcell, hlink⟩ := h
  rw [cells_extend_self, List.getElem?_append_right (Nat.le_add_right _ _)] at hcell
  exact ⟨cell, List.mem_of_getElem? hcell, hlink⟩

/-- Each new cell has one of the new places. -/
theorem child_of_mem {A : Arena hash} {more : List (Cell k)} {cell : Cell k}
    (hmem : cell ∈ more) {link : Link} (hlink : link ∈ cell.links) {r : Ref}
    (hr : r ∈ link.refs) : ∃ top ∈ A.newRefs more, (A.extend more).Child top r := by
  obtain ⟨i, hi, hget⟩ := List.mem_iff_getElem.mp hmem
  refine ⟨⟨k, (A.cells k).length + i⟩,
    Multiset.mem_map.mpr ⟨i, Multiset.mem_range.mpr hi, rfl⟩, cell, ?_,
    link, hlink, hr⟩
  rw [cells_extend_self, List.getElem?_append_right (Nat.le_add_right _ _),
    Nat.add_sub_cancel_left, List.getElem?_eq_getElem hi, hget]
  rfl

/-- Only a place that is there has others below it. -/
theorem Child.allocated_left {A : Arena hash} {r r' : Ref} (h : A.Child r r') :
    A.Allocated r := by
  obtain ⟨cell, hcell, -⟩ := h
  exact (List.getElem?_eq_some_iff.mp hcell).1

namespace Forest

variable {A : Arena hash} {held : Multiset Link}

/-- In a forest, every link leads to places that are there. -/
theorem allocated_of_mem (h : A.Forest held) {link : Link}
    (hlink : link ∈ A.links + held) {r : Ref} (hr : r ∈ link.refs) :
    A.Allocated r := by
  have hmem : r ∈ (A.links + held).bind Link.refs :=
    Multiset.mem_bind.mpr ⟨link, hlink, hr⟩
  have hcount := h.once r
  by_contra hnot
  rw [if_neg hnot] at hcount
  exact (Multiset.count_eq_zero.mp hcount) hmem

/-- What is below a place is there as well. -/
theorem allocated_child (h : A.Forest held) {r r' : Ref} (hchild : A.Child r r') :
    A.Allocated r' := by
  obtain ⟨cell, hcell, link, hlink, hr⟩ := hchild
  refine h.allocated_of_mem (Multiset.mem_add.mpr (.inl ?_)) hr
  exact mem_links.mpr ⟨r.kind, cell, List.mem_of_getElem? hcell, hlink⟩

/-- A path that starts in an old place has only old ones. -/
theorem path_of_extend (h : A.Forest held) {more : List (Cell k)} {r r' : Ref}
    (hold : A.Allocated r) (hpath : ReflTransGen (A.extend more).Child r r') :
    A.Allocated r' ∧ ReflTransGen A.Child r r' := by
  induction hpath with
  | refl => exact ⟨hold, .refl⟩
  | tail _ hstep ih =>
    have hchild := child_of_extend ih.1 hstep
    exact ⟨h.allocated_child hchild, ih.2.tail hchild⟩

/-- **More cells.** They take links that are held, and what leads to them is
held in exchange. -/
theorem extend {more : List (Cell k)} {link : Link}
    (h : A.Forest (linksOf more + held)) (hhas : (A.extend more).Has link)
    (hrefs : link.refs = A.newRefs more) :
    (A.extend more).Forest ({link} + held) := by
  have hgrow := extends_extend A more
  -- what the new cells link to was there before
  have hbelow : ∀ {r r' : Ref}, r ∈ A.newRefs more → (A.extend more).Child r r' →
      A.Allocated r' := by
    intro r r' hnew hchild
    obtain ⟨cell, hcell, l, hl, hr⟩ := mem_of_newRefs hnew hchild
    refine h.allocated_of_mem
      (Multiset.mem_add.mpr (.inr (Multiset.mem_add.mpr (.inl ?_)))) hr
    exact mem_linksOf.mpr ⟨cell, hcell, hl⟩
  refine ⟨?_, ?_, ?_, ?_, h.entered⟩
  · intro l hl
    rw [links_extend, Multiset.mem_add, Multiset.mem_add, Multiset.mem_add,
      Multiset.mem_singleton] at hl
    rcases hl with (hl | hl) | (rfl | hl)
    · exact hgrow.has (h.sound l (Multiset.mem_add.mpr (.inl hl)))
    · exact hgrow.has
        (h.sound l (Multiset.mem_add.mpr (.inr (Multiset.mem_add.mpr (.inl hl)))))
    · exact hhas
    · exact hgrow.has
        (h.sound l (Multiset.mem_add.mpr (.inr (Multiset.mem_add.mpr (.inr hl)))))
  · intro r
    -- the links given up are in the new cells now, and so count as before; only the
    -- new places are added on both sides
    have hcount := h.once r
    have hnew := count_newRefs A more r
    simp only [links_extend, Multiset.add_bind, Multiset.singleton_bind,
      Multiset.count_add, hrefs] at hcount ⊢
    omega
  · intro r hr
    by_cases hold : A.Allocated r
    · obtain ⟨l, hl, top, htop, hpath⟩ := h.reached r hold
      have hlift : ReflTransGen (A.extend more).Child top r :=
        ReflTransGen.mono (fun _ _ hchild => hgrow.child hchild) _ _ hpath
      rcases Multiset.mem_add.mp hl with hl | hl
      -- what hung from a link that was given up hangs from the new cell
      · obtain ⟨cell, hcell, hl⟩ := mem_linksOf.mp hl
        obtain ⟨above, habove, hchild⟩ := child_of_mem (A := A) hcell hl htop
        exact ⟨link, Multiset.mem_add.mpr (.inl (Multiset.mem_singleton.mpr rfl)),
          above, hrefs ▸ habove,
          hlift.head hchild⟩
      · exact ⟨l, Multiset.mem_add.mpr (.inr hl), top, htop, hlift⟩
    · have hnew := mem_newRefs.mpr ⟨hold, hr⟩
      exact ⟨link, Multiset.mem_add.mpr (.inl (Multiset.mem_singleton.mpr rfl)), r,
        hrefs ▸ hnew, .refl⟩
  · intro i j hpath
    obtain ⟨below, hfirst, hrest⟩ := TransGen.head'_iff.mp hpath
    -- from an old type the path was there before; from a new one it leads to old
    -- types with its first step
    by_cases hold : A.Allocated ⟨.type, i⟩
    · have hchild := child_of_extend hold hfirst
      have hbelow' := h.path_of_extend (h.allocated_child hchild) hrest
      exact h.descends i j (TransGen.head' hchild hbelow'.2)
    · have hnew := mem_newRefs.mpr ⟨hold, hfirst.allocated_left⟩
      have hj : A.Allocated ⟨.type, j⟩ :=
        (h.path_of_extend (hbelow hnew hfirst) hrest).1
      have hi : (A.cells .type).length ≤ i := not_lt.mp hold
      exact lt_of_lt_of_le hj hi

/-- A link that leads to no cell may be held in addition, and then there may
be more texts. -/
theorem hold {B : Arena hash} {link : Link} (h : A.Forest held) (hgrow : A.Extends B)
    (hcells : B.cells = A.cells) (hentered : B.symbols.Entered) (hhas : B.Has link)
    (hrefs : link.refs = 0) : B.Forest ({link} + held) := by
  have hlinks : B.links = A.links := by unfold links; rw [hcells]
  have hallocated : B.Allocated = A.Allocated := by unfold Allocated; rw [hcells]
  have hchild : B.Child = A.Child := by unfold Child; rw [hcells]
  refine ⟨?_, ?_, ?_, ?_, hentered⟩
  · intro l hl
    rw [hlinks, Multiset.mem_add, Multiset.mem_add, Multiset.mem_singleton] at hl
    rcases hl with hl | (rfl | hl)
    · exact hgrow.has (h.sound l (Multiset.mem_add.mpr (.inl hl)))
    · exact hhas
    · exact hgrow.has (h.sound l (Multiset.mem_add.mpr (.inr hl)))
  · intro r
    have hcount := h.once r
    simp only [hlinks, Multiset.add_bind, Multiset.singleton_bind, Multiset.count_add,
      hrefs, zero_add, hallocated] at hcount ⊢
    exact hcount
  · intro r hr
    rw [hallocated] at hr
    obtain ⟨l, hl, hpath⟩ := h.reached r hr
    rw [hchild]
    exact ⟨l, Multiset.mem_add.mpr (.inr hl), hpath⟩
  · rw [hchild]
    exact h.descends

/-- The empty arena is a forest without trees. -/
theorem empty : (Arena.empty : Arena hash).Forest 0 := by
  have hnone : ∀ r, ¬ (Arena.empty : Arena hash).Allocated r :=
    fun r hr => Nat.not_lt_zero _ hr
  have hlinks : (Arena.empty : Arena hash).links = 0 :=
    Finset.sum_eq_zero fun _ _ => rfl
  refine ⟨?_, ?_, ?_, ?_, ?_⟩
  · intro link hlink
    rw [hlinks] at hlink
    exact absurd hlink (Multiset.notMem_zero link)
  · intro r
    rw [hlinks, if_neg (hnone r)]
    rfl
  · exact fun r hr => absurd hr (hnone r)
  · intro i j hpath
    obtain ⟨r, hchild, -⟩ := TransGen.head'_iff.mp hpath
    exact absurd hchild.allocated_left (hnone _)
  · intro key s hs
    have hbucket : (SymbolTable.empty : SymbolTable hash).bucket key = [] :=
      Std.HashMap.getD_empty
    exact absurd (hbucket ▸ hs) List.not_mem_nil

end Forest

/-! ## Moves -/

/-- One move in filling an arena, from the arena and the links held to
those after it. -/
inductive Step : Arena hash × Multiset Link → Arena hash × Multiset Link → Prop
  /-- Make a node. -/
  | node {k : CellKind} (A : Arena hash) (cell : Cell k) (held : Multiset Link) :
    Step (A, cell.links + held) ((alloc cell A).2, {.node (alloc cell A).1} + held)
  /-- Make a list. -/
  | items {k : CellKind} (A : Arena hash) (items : List (Cell k))
      (held : Multiset Link) :
    Step (A, linksOf items + held) ((list items A).2, {.list (list items A).1} + held)
  /-- Enter a text. -/
  | text (A : Arena hash) (text : String) (held : Multiset Link) :
    Step (A, held) ((intern text A).2, {.symbol (intern text A).1} + held)
  /-- Take the list without items. -/
  | nothing {k : CellKind} (A : Arena hash) (held : Multiset Link) :
    Step (A, held) (A, {.list (.empty : ListRef k)} + held)

variable {s s' : Arena hash × Multiset Link}

/-- No step takes anything out of the arena. -/
theorem Step.extends (h : Step s s') : s.1.Extends s'.1 := by
  cases h with
  | node A cell => exact extends_extend A [cell]
  | items A items => exact extends_extend A items
  | text A text => exact extends_intern A text
  | nothing A => exact .refl A

/-- **A move keeps the forest**, as long as the numbers suffice. -/
theorem Step.forest (h : Step s s') (hfits : s'.1.Fits) (hforest : s.1.Forest s.2) :
    s'.1.Forest s'.2 := by
  cases h with
  | @node k A cell held =>
    have hheld : A.Forest (linksOf [cell] + held) := by
      rwa [linksOf_cons, linksOf_nil, add_zero]
    refine hheld.extend (Option.isSome_of_eq_some (cell?_alloc hfits)) ?_
    have hlength : (A.cells k).length < 2 ^ 32 :=
      ((extends_extend A [cell]).fits hfits).cells k
    show {(⟨k, (UInt32.ofNat (A.cells k).length).toNat⟩ : Ref)} = _
    rw [toNat_ofNat_length hlength]
    rfl
  | @items k A items held =>
    obtain ⟨-, hstart, hlen⟩ := toNat_start_add_len hfits
    refine hforest.extend (Option.isSome_of_eq_some (slice?_list hfits)) ?_
    show Multiset.map _ (Multiset.range _) = _
    rw [hstart, hlen]
    rfl
  | text A text =>
    have hhas := Option.isSome_of_eq_some (text?_intern hfits)
    exact hforest.hold (extends_intern A text) rfl
      (hforest.entered.intern text) hhas rfl
  | nothing A =>
    exact hforest.hold (.refl A) rfl hforest.entered
      (Option.isSome_of_eq_some (slice?_empty A)) rfl

/-- Any number of moves. -/
abbrev Steps : Arena hash × Multiset Link → Arena hash × Multiset Link → Prop :=
  ReflTransGen Step

/-- **Any number of moves keeps the forest**, as long as the numbers
suffice in the end. -/
theorem Steps.forest (h : Steps s s') (hfits : s'.1.Fits) (hforest : s.1.Forest s.2) :
    s'.1.Forest s'.2 := by
  induction h with
  | refl => exact hforest
  | tail _ hstep ih => exact hstep.forest hfits (ih (hstep.extends.fits hfits))

end Arena

end GoInventory
