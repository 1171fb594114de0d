import GoInventory.Proofs.Syntax.Accounting
import GoInventory.Proofs.Syntax.SpanTree
import GoInventory.Proofs.TypeText.Outline
import Mathlib.Data.List.Flatten

/-!
# Types without a text

The text of a type is made of its nodes: the types outside the bodies of structs
and interfaces, and the lengths of arrays. `TypeExpr.textNodes` has them in the
order in which the text names them, each node before those in it. A few nodes
have no text (`TextNode.unsupported?`), and the text of a type fails with the
first of these (`TypeExpr.render_failsWith`).

For the types of a parsed file this is also the order of the source: a node
starts where its first token starts, and the nodes in it are read from the
tokens behind (`Grammar.Laid.starts`). Offsets that are too large to be recorded
are all recorded as the same one, which keeps the order, so no bound on the
length of the source is needed.
-/

namespace GoInventory

/-- A node that the text of a type is made of. -/
inductive TextNode where
  | type (t : TypeExpr)
  | length (l : LengthExpr)

namespace TextNode

/-- The span of the node. -/
def span : TextNode → Span
  | type t => t.span
  | length l => l.span

/-- Why the node has no text, if it has none whatever stands in it. -/
def unsupported? : TextNode → Option UnsupportedType
  | type (.paren s _) => some ⟨.paren, s⟩
  | type (.union s _) => some ⟨.union, s⟩
  | type (.array s .ellipsis _) => some ⟨.ellipsisLength, s⟩
  | length (.other s) => some ⟨.lengthExpression, s⟩
  | _ => none

/-- The error is about the span of the node. -/
theorem span_of_unsupported? {n : TextNode} {e : UnsupportedType}
    (h : n.unsupported? = some e) : e.span = n.span := by
  unfold unsupported? at h
  split at h <;> cases h <;> rfl

end TextNode

/-- The node between the brackets of an array type, if there is one. -/
def ArrayLength.textNodes : ArrayLength → List TextNode
  | expr length => [.length length]
  | ellipsis => []

mutual

/-- The nodes of a type outside the bodies of structs and interfaces, each
before those in it: a length before the element, a key before the value, a name
before its arguments, parameters before results. -/
def TypeExpr.textNodes : TypeExpr → List TextNode
  | .named name => [.type (.named name)]
  | .applied span base args =>
    .type (.applied span base args) :: .type (.named base) :: textNodesOfTypes args
  | .pointer span elem => .type (.pointer span elem) :: elem.textNodes
  | .array span length elem =>
    .type (.array span length elem) :: (length.textNodes ++ elem.textNodes)
  | .slice span elem => .type (.slice span elem) :: elem.textNodes
  | .map span key value =>
    .type (.map span key value) :: (key.textNodes ++ value.textNodes)
  | .chan span dir elem => .type (.chan span dir elem) :: elem.textNodes
  | .func span ⟨params, results, inner⟩ =>
    .type (.func span ⟨params, results, inner⟩)
      :: (textNodesOfFields params ++ textNodesOfFields results)
  | .struct span fields => [.type (.struct span fields)]
  | .interface span elems => [.type (.interface span elems)]
  | .variadic span elem => .type (.variadic span elem) :: elem.textNodes
  | .paren span elem => .type (.paren span elem) :: elem.textNodes
  | .union span terms => .type (.union span terms) :: textNodesOfTerms terms

/-- The nodes of types, in order. -/
def textNodesOfTypes : List TypeExpr → List TextNode
  | [] => []
  | type :: rest => type.textNodes ++ textNodesOfTypes rest

/-- The nodes of parameters or results, in order. -/
def textNodesOfFields : List (Field TypeExpr) → List TextNode
  | [] => []
  | ⟨_, type, _, _⟩ :: rest => type.textNodes ++ textNodesOfFields rest

/-- The nodes of terms, in order. -/
def textNodesOfTerms : List (Term TypeExpr) → List TextNode
  | [] => []
  | ⟨_, type⟩ :: rest => type.textNodes ++ textNodesOfTerms rest

end

theorem textNodesOfTypes_eq (types : List TypeExpr) :
    textNodesOfTypes types = types.flatMap (·.textNodes) := by
  induction types with
  | nil => rfl
  | cons t rest ih => rw [textNodesOfTypes, ih, List.flatMap_cons]

theorem textNodesOfFields_eq (fields : List (Field TypeExpr)) :
    textNodesOfFields fields = fields.flatMap (·.type.textNodes) := by
  induction fields with
  | nil => rfl
  | cons f rest ih => rw [textNodesOfFields, ih, List.flatMap_cons]

theorem textNodesOfTerms_eq (terms : List (Term TypeExpr)) :
    textNodesOfTerms terms = terms.flatMap (·.type.textNodes) := by
  induction terms with
  | nil => rfl
  | cons t rest ih => rw [textNodesOfTerms, ih, List.flatMap_cons]

/-- The first node of a type that has no text, and why. -/
def TypeExpr.unsupported? (t : TypeExpr) : Option UnsupportedType :=
  t.textNodes.findSome? TextNode.unsupported?

/-! ## The first node without a text is the error -/

/-- The text fails with this error, and is there if no error is given. -/
def FailsWith {α : Type} (text : Except UnsupportedType α)
    (e? : Option UnsupportedType) : Prop :=
  match text with
  | .ok _ => e? = none
  | .error e => e? = some e

namespace FailsWith

variable {α β : Type} {text : Except UnsupportedType α} {e? : Option UnsupportedType}

/-- The error is the one that is named. -/
theorem eq_error_iff (h : FailsWith text e?) (e : UnsupportedType) :
    text = .error e ↔ e? = some e := by
  cases text with
  | ok a =>
    obtain rfl : e? = none := h
    simp
  | error e' =>
    obtain rfl : e? = some e' := h
    simp

/-- There is a text exactly if no error is named. -/
theorem exists_ok_iff (h : FailsWith text e?) : (∃ a, text = .ok a) ↔ e? = none := by
  cases text with
  | ok a =>
    obtain rfl : e? = none := h
    simp
  | error e' =>
    obtain rfl : e? = some e' := h
    simp

/-- What is made of the text does not fail. -/
theorem map (h : FailsWith text e?) (f : α → β) :
    FailsWith (do return f (← text)) e? := by
  cases text with
  | ok a => exact h
  | error e => exact h

/-- The second text is asked for only if the first is there. -/
theorem bind {next : α → Except UnsupportedType β} {e'? : Option UnsupportedType}
    (h : FailsWith text e?) (hnext : ∀ a, FailsWith (next a) e'?) :
    FailsWith (text >>= next) (e?.or e'?) := by
  cases text with
  | ok a =>
    obtain rfl : e? = none := h
    exact hnext a
  | error e =>
    obtain rfl : e? = some e := h
    rfl

end FailsWith

/-- A length fails at itself, and the array around it comes first. -/
theorem ArrayLength.render_failsWith (s : Span) (length : ArrayLength)
    (elem : TypeExpr) :
    FailsWith (length.render s)
      ((TextNode.type (.array s length elem) :: length.textNodes).findSome?
        TextNode.unsupported?) := by
  cases length with
  | ellipsis => rfl
  | expr length => cases length <;> rfl

/-- **A list of types fails at the first of them that fails.** -/
theorem renderTypes_failsWith {types : List TypeExpr}
    (h : ∀ t ∈ types, FailsWith t.render t.unsupported?) :
    FailsWith (renderTypes types)
      ((types.flatMap (·.textNodes)).findSome? TextNode.unsupported?) := by
  induction types with
  | nil => rfl
  | cons t rest ih =>
    rw [renderTypes, List.flatMap_cons, List.findSome?_append]
    exact (h t List.mem_cons_self).bind
      fun text => (ih fun u hu => h u (List.mem_cons_of_mem t hu)).map _

/-- The same for the types of fields. -/
theorem renderFields_failsWith {fields : List (Field TypeExpr)}
    (h : ∀ f ∈ fields, FailsWith f.type.render f.type.unsupported?) :
    FailsWith (renderFields fields)
      ((fields.flatMap (·.type.textNodes)).findSome? TextNode.unsupported?) := by
  induction fields with
  | nil => rfl
  | cons f rest ih =>
    rw [renderFields_cons, List.flatMap_cons, List.findSome?_append]
    exact (h f List.mem_cons_self).bind
      fun text => (ih fun g hg => h g (List.mem_cons_of_mem f hg)).map _

/-- **The text of a type fails with its first node that has none.** -/
theorem TypeExpr.render_failsWith (t : TypeExpr) :
    FailsWith t.render t.unsupported? := by
  induction t using induction_children with
  | h t ih =>
    unfold unsupported?
    cases t with
    | named | struct | interface | paren | union => rfl
    | pointer s elem | slice s elem | chan s dir elem | variadic s elem =>
      rw [render, textNodes]
      exact (ih elem (by simp [children])).map _
    | array s length elem =>
      rw [render, textNodes, ← List.cons_append, List.findSome?_append]
      exact (length.render_failsWith s elem).bind
        fun text => (ih elem (by simp [children])).map _
    | map s key value =>
      rw [render, textNodes]
      show FailsWith _ ((key.textNodes ++ value.textNodes).findSome? _)
      rw [List.findSome?_append]
      exact (ih key (by simp [children])).bind
        fun text => (ih value (by simp [children])).map _
    | applied s base args =>
      rw [render, textNodes, textNodesOfTypes_eq]
      exact (renderTypes_failsWith fun u hu => ih u (List.mem_cons_of_mem _ hu)).map _
    | func s sig =>
      obtain ⟨params, results, s'⟩ := sig
      rw [render, textNodes, textNodesOfFields_eq, textNodesOfFields_eq]
      show FailsWith _ ((params.flatMap _ ++ results.flatMap _).findSome? _)
      rw [List.findSome?_append]
      refine (renderFields_failsWith fun f hf => ?_).bind
        fun texts => (renderFields_failsWith fun f hf => ?_).map _
      · exact ih f.type (List.mem_append_left _ (List.mem_map_of_mem hf))
      · exact ih f.type (List.mem_append_right _ (List.mem_map_of_mem hf))

/-! ## The order of the source -/

mutual

/-- All spans of a tree, each before those in it. -/
def SpanTree.spans : SpanTree → List Span
  | .node span children => span :: spansOfTrees children

/-- All spans of trees, in order. -/
def spansOfTrees : List SpanTree → List Span
  | [] => []
  | tree :: rest => tree.spans ++ spansOfTrees rest

end

theorem spansOfTrees_eq (trees : List SpanTree) :
    spansOfTrees trees = trees.flatMap (·.spans) := by
  induction trees with
  | nil => rfl
  | cons tree rest ih => rw [spansOfTrees, ih, List.flatMap_cons]

/-- The spans of a tree in pre-order: its own, and then those of its
children in order. -/
theorem SpanTree.spans_eq (tree : SpanTree) :
    tree.spans = tree.span :: tree.children.flatMap (·.spans) := by
  obtain ⟨s, children⟩ := tree
  rw [spans, spansOfTrees_eq]
  rfl

/-- Spans are exact, and the tokens that they fit follow each other. -/
def Placement.sorted : Placement where
  allows := InOrder
  fits := fun s run => s.Exact run ∧ InOrder run
  allows_left := InOrder.left
  allows_right := InOrder.right
  fits_extent :=
    fun hrun hfirst hlast => ⟨Placement.exact.fits_extent hrun hfirst hlast, hrun⟩
  fits_since :=
    fun hrun hfirst hlast => ⟨Placement.exact.fits_since hrun hfirst hlast, hrun⟩
  fits_join :=
    fun hrun ha hb hs hs' => ⟨Placement.exact.fits_join hrun ha hb hs.1 hs'.1, hrun⟩

/-- The spans start one at or behind the other, each with a token of the run. -/
structure StartsIn (run : List Token) (spans : List Span) : Prop where
  sorted : spans.Pairwise fun a b => a.start ≤ b.start
  starts : ∀ s ∈ spans, ∃ t ∈ run, s.start = min t.start Span.maxOffset

namespace StartsIn

variable {run : List Token} {spans : List Span}

theorem nil : StartsIn run [] :=
  ⟨.nil, nofun⟩

/-- A token that starts no span may be left out. -/
theorem skip {t : Token} (h : StartsIn run spans) : StartsIn (t :: run) spans := by
  refine ⟨h.sorted, fun s hs => ?_⟩
  obtain ⟨u, hu, hstart⟩ := h.starts s hs
  exact ⟨u, List.mem_cons_of_mem t hu, hstart⟩

/-- A span over some tokens with the spans in it, before spans over the
tokens behind. -/
theorem cons {s : Span} {inner : List Span} {part : List Token}
    (hrun : InOrder (part ++ run)) (hs : s.Exact part) (hinner : StartsIn part inner)
    (hrest : StartsIn run spans) :
    StartsIn (part ++ run) (s :: (inner ++ spans)) := by
  obtain ⟨first, last, hfirst, -, rfl⟩ := hs
  have hmem : first ∈ part := List.mem_of_mem_head? hfirst
  have hbefore : ∀ t ∈ part, ∀ u ∈ run, t.start ≤ u.start := by
    intro t ht u hu
    have hle := hrun.left.start_le_stop t ht
    have hnext := (List.pairwise_append.mp hrun.ordered).2.2 t ht u hu
    omega
  refine ⟨List.pairwise_cons.mpr ⟨fun b hb => ?_,
    List.pairwise_append.mpr ⟨hinner.sorted, hrest.sorted, ?_⟩⟩, ?_⟩
  · show min first.start Span.maxOffset ≤ b.start
    rcases List.mem_append.mp hb with hb | hb
    · obtain ⟨t, ht, hstart⟩ := hinner.starts b hb
      have hle := hrun.left.head_start_le hfirst ht
      omega
    · obtain ⟨t, ht, hstart⟩ := hrest.starts b hb
      have hle := hbefore first hmem t ht
      omega
  · intro a ha b hb
    obtain ⟨t, ht, hstart⟩ := hinner.starts a ha
    obtain ⟨u, hu, hstart'⟩ := hrest.starts b hb
    have hle := hbefore t ht u hu
    omega
  · intro b hb
    rcases List.mem_cons.mp hb with rfl | hb
    · exact ⟨first, List.mem_append_left run hmem, rfl⟩
    · rcases List.mem_append.mp hb with hb | hb
      · obtain ⟨t, ht, hstart⟩ := hinner.starts b hb
        exact ⟨t, List.mem_append_left run ht, hstart⟩
      · obtain ⟨t, ht, hstart⟩ := hrest.starts b hb
        exact ⟨t, List.mem_append_right part ht, hstart⟩

end StartsIn

/-- **Trees that are laid out over tokens start in the order of the source.** -/
theorem Grammar.Laid.starts {run : List Token} {trees : List SpanTree}
    (h : Laid .sorted run trees) (hrun : InOrder run) :
    StartsIn run (trees.flatMap (·.spans)) := by
  induction h with
  | nil => exact .nil
  | @skip t _ _ _ ih => exact (ih (InOrder.right (a := [t]) hrun)).skip
  | @node tree _ _ _ _ hfits _ _ ihinner ihrest =>
    rw [List.flatMap_cons, tree.spans_eq, List.cons_append]
    exact .cons hrun hfits.1 (ihinner hrun.left) (ihrest hrun.right)
  | @region _ mark _ _ _ _ hskip _ ih =>
    have hrun := InOrder.right (a := [mark]) hrun
    exact .skip (.cons hrun hskip.fits.1 .nil (ih hrun.right))

/-- Every type of a parsed file has its spans over tokens in their order. -/
theorem SourceFile.HasType.startsIn {source : String} {file : SourceFile}
    {t : TypeExpr} (ht : file.HasType t) (h : parseSource source = .ok file) :
    ∃ run, StartsIn run t.spanTree.spans := by
  have horder : InOrder (tokenize source).tokens := by
    obtain ⟨hplaced, hordered⟩ := Token.tokenize_placed source
    exact ⟨hordered, fun u hu => (hplaced u hu).start_le_stop⟩
  have hrun : Grammar.FileRun .sorted file (tokenize source).tokens :=
    fileRun_of_parseTokens (parseTokens_of_parseSource h) horder
  have hspanned : ∃ run, Grammar.Spanned .sorted t.spanTree run := by
    cases Grammar.IsNode.of_fileRun hrun ht with
    | param hparam => exact ⟨_, hparam.spanned Grammar.Spells.spanned⟩
    | constraint hconstraint => exact ⟨_, hconstraint.spanned Grammar.Spells.spanned⟩
    | @method s sig run e hsig hfits =>
      have hsig := hsig.spanned Grammar.Spells.spanned
      rw [TypeExpr.spanTree_func]
      exact ⟨run, hsig.opens, hfits, hsig.laid⟩
  obtain ⟨run, hspanned⟩ := hspanned
  have hstarts := hspanned.laid.starts hspanned.fits.2
  rw [List.flatMap_singleton] at hstarts
  exact ⟨run, hstarts⟩

/-! ## The nodes among the spans -/

/-- The spans of a child are in order among those of the tree. -/
theorem SpanTree.sublist_of_child {tree c : SpanTree} {spans : List Span}
    (hc : c ∈ tree.children) (h : spans.Sublist c.spans) :
    spans.Sublist tree.spans := by
  rw [tree.spans_eq, List.flatMap_def]
  exact .cons _ (h.trans (List.sublist_flatten_of_mem (List.mem_map_of_mem hc)))

/-- The nodes of a length that have a text are spans of it, in order. -/
theorem ArrayLength.textNodes_sublist (length : ArrayLength) :
    (length.textNodes.map TextNode.span).Sublist
      (length.spanTrees.flatMap (·.spans)) := by
  cases length with
  | ellipsis => exact .slnil
  | expr length =>
    show [length.span].Sublist ([length.spanTree].flatMap (·.spans))
    rw [List.flatMap_singleton, SpanTree.spans_eq]
    cases length <;> exact (List.nil_sublist _).cons_cons _

/-- The nodes of parameters or results are among their spans. -/
theorem textNodesOfFields_sublist {fields : List (Field TypeExpr)}
    (h : ∀ f ∈ fields,
      (f.type.textNodes.map TextNode.span).Sublist f.type.spanTree.spans) :
    ((textNodesOfFields fields).map TextNode.span).Sublist
      ((fields.map Field.spanTree).flatMap (·.spans)) := by
  rw [textNodesOfFields_eq, List.map_flatMap, List.flatMap_map]
  refine List.Sublist.flatMap_right fields
    fun f hf => SpanTree.sublist_of_child ?_ (h f hf)
  simp [Field.spanTree, SpanTree.children]

/-- The nodes are among the spans of the type, in the same order. -/
theorem TypeExpr.textNodes_sublist (t : TypeExpr) :
    (t.textNodes.map TextNode.span).Sublist t.spanTree.spans := by
  induction t using induction_children with
  | h t ih =>
    rw [SpanTree.spans_eq]
    cases t with
    | named n =>
      rw [textNodes, spanTree]
      cases n <;> exact (List.nil_sublist _).cons_cons _
    | struct | interface =>
      rw [textNodes, spanTree]
      exact (List.nil_sublist _).cons_cons _
    | pointer s elem | slice s elem | chan s dir elem | variadic s elem
        | paren s elem =>
      rw [textNodes, spanTree]
      show (s :: _).Sublist (s :: [elem.spanTree].flatMap _)
      rw [List.flatMap_singleton]
      exact (ih elem (by simp [children])).cons_cons s
    | array s length elem =>
      rw [textNodes, spanTree, List.map_cons, List.map_append]
      show (s :: _).Sublist (s :: (length.spanTrees ++ [elem.spanTree]).flatMap _)
      rw [List.flatMap_append, List.flatMap_singleton]
      exact (length.textNodes_sublist.append
        (ih elem (by simp [children]))).cons_cons s
    | map s key value =>
      rw [textNodes, spanTree, List.map_cons, List.map_append]
      show (s :: _).Sublist (s :: ([key.spanTree] ++ [value.spanTree]).flatMap _)
      rw [List.flatMap_append, List.flatMap_singleton, List.flatMap_singleton]
      exact ((ih key (by simp [children])).append
        (ih value (by simp [children]))).cons_cons s
    | applied s base args =>
      have hbase := ih (.named base) (by simp [children])
      rw [textNodes, spanTree, textNodesOfTypes_eq, spanTreesOfTypes_eq]
      show (s :: ([base.span] ++ (args.flatMap _).map TextNode.span)).Sublist
        (s :: (base.spanTree.spans ++ (args.map _).flatMap _))
      rw [List.map_flatMap, List.flatMap_map]
      exact (hbase.append (List.Sublist.flatMap_right args
        fun u hu => ih u (List.mem_cons_of_mem _ hu))).cons_cons s
    | func s sig =>
      obtain ⟨params, results, s'⟩ := sig
      rw [spanTree_func, textNodes, List.map_cons, List.map_append]
      show (s :: _).Sublist
        (s :: [Signature.spanTree ⟨params, results, s'⟩].flatMap _)
      rw [List.flatMap_singleton, SpanTree.spans_eq]
      show (s :: _).Sublist (s :: s' :: (params.map _ ++ results.map _).flatMap _)
      rw [List.flatMap_append]
      refine .cons_cons s
        (.cons s' (.append (textNodesOfFields_sublist fun f hf => ?_)
        (textNodesOfFields_sublist fun f hf => ?_)))
      · exact ih f.type (List.mem_append_left _ (List.mem_map_of_mem hf))
      · exact ih f.type (List.mem_append_right _ (List.mem_map_of_mem hf))
    | union s terms =>
      rw [textNodes, spanTree, textNodesOfTerms_eq, spanTreesOfTerms_eq]
      show (s :: (terms.flatMap _).map _).Sublist (s :: (terms.map _).flatMap _)
      rw [List.map_flatMap, List.flatMap_map]
      exact .cons_cons s (List.Sublist.flatMap_right terms
        fun u hu => ih u.type (List.mem_map_of_mem hu))

/-- The nodes of a type of a parsed file start one at or behind the other. -/
theorem SourceFile.HasType.textNodes_sorted {source : String} {file : SourceFile}
    {t : TypeExpr} (ht : file.HasType t) (h : parseSource source = .ok file) :
    t.textNodes.Pairwise fun a b => a.span.start ≤ b.span.start := by
  obtain ⟨run, hstarts⟩ := ht.startsIn h
  have hsorted := hstarts.sorted.sublist t.textNodes_sublist
  rwa [List.pairwise_map] at hsorted

/-- **The text of a type fails on nodes that have none, and with the first of
them.** It fails exactly if there is such a node. The error has the form and the
span of the first one, which starts at or before all others. -/
theorem render_failsFirst {source : String} {file : SourceFile} {t : TypeExpr}
    (h : parseSource source = .ok file) (ht : file.HasType t) :
    ((∃ e, t.render = .error e) ↔ ∃ n ∈ t.textNodes, n.unsupported? ≠ none) ∧
    ∀ e, t.render = .error e → ∃ before n after, t.textNodes = before ++ n :: after ∧
      (∀ m ∈ before, m.unsupported? = none) ∧ n.unsupported? = some e ∧
        e.span = n.span ∧
      ∀ m ∈ t.textNodes, m.unsupported? ≠ none → n.span.start ≤ m.span.start := by
  have hfails := t.render_failsWith
  refine ⟨?_, fun e he => ?_⟩
  · simp only [hfails.eq_error_iff]
    rw [← Option.ne_none_iff_exists', ne_eq, TypeExpr.unsupported?,
      List.findSome?_eq_none_iff]
    simp
  · obtain ⟨before, n, after, hnodes, hn, hbefore⟩ :=
      List.findSome?_eq_some_iff.mp ((hfails.eq_error_iff e).mp he)
    refine ⟨before, n, after, hnodes, hbefore, hn, TextNode.span_of_unsupported? hn,
      fun m hm hne => ?_⟩
    have hsorted := ht.textNodes_sorted h
    rw [hnodes] at hm hsorted
    rcases List.mem_append.mp hm with hm | hm
    · exact absurd (hbefore m hm) hne
    · rcases List.mem_cons.mp hm with rfl | hm
      · exact Nat.le_refl _
      · exact (List.pairwise_cons.mp (List.pairwise_append.mp hsorted).2.1).1 m hm

/-- A variable with three nodes that have no text: a length that is computed, a
length that is left out, and a type in parentheses. -/
def sampleLengths : String :=
  "package p\nvar v map[[n+1]T][...](T)\n"

/-- The type of the variable. -/
def sampleLengthsType : TypeExpr :=
  .map ⟨16, 35⟩
    (.array ⟨20, 26⟩ (.expr (.other ⟨21, 24⟩)) (.named (.plain ⟨"T", ⟨25, 26⟩⟩)))
    (.array ⟨27, 35⟩ .ellipsis (.paren ⟨32, 35⟩ (.named (.plain ⟨"T", ⟨33, 34⟩⟩))))

/-- The file that the source is. -/
def sampleLengthsFile : SourceFile :=
  ⟨⟨"p", ⟨8, 9⟩⟩,
    [.vars ⟨[⟨[⟨"v", ⟨14, 15⟩⟩], some sampleLengthsType, none⟩], false, ⟨10, 35⟩⟩]⟩

theorem parseSource_sampleLengths :
    parseSource sampleLengths = .ok sampleLengthsFile := by
  have htokens : tokenize sampleLengths
    = ⟨[⟨0, .keyword .package, 7⟩, ⟨8, .ident "p", 9⟩, ⟨9, .op .semicolon, 9⟩,
      ⟨10, .keyword .var, 13⟩, ⟨14, .ident "v", 15⟩, ⟨16, .keyword .map, 19⟩,
      ⟨19, .op .openBracket, 20⟩,
      ⟨20, .op .openBracket, 21⟩, ⟨21, .ident "n", 22⟩, ⟨22, .op .plus, 23⟩,
      ⟨23, .literal .int "1", 24⟩,
      ⟨24, .op .closeBracket, 25⟩, ⟨25, .ident "T", 26⟩, ⟨26, .op .closeBracket, 27⟩,
      ⟨27, .op .openBracket, 28⟩,
      ⟨28, .op .ellipsis, 31⟩, ⟨31, .op .closeBracket, 32⟩, ⟨32, .op .openParen, 33⟩,
      ⟨33, .ident "T", 34⟩,
      ⟨34, .op .closeParen, 35⟩, ⟨35, .op .semicolon, 35⟩], []⟩ := by decide +kernel
  rw [parseSource_eq_ok_iff, htokens]
  exact ⟨rfl, rfl⟩

/-- Of the lengths in the sample the first one that is not
understood is reported. -/
theorem render_failsFirst_sampleLengths :
    parseSource sampleLengths = .ok sampleLengthsFile ∧
    sampleLengthsFile.HasType sampleLengthsType ∧
    sampleLengthsType.render = .error ⟨.lengthExpression, ⟨21, 24⟩⟩ ∧
    sampleLengthsType.textNodes.filterMap TextNode.unsupported?
      = [⟨.lengthExpression, ⟨21, 24⟩⟩, ⟨.ellipsisLength, ⟨27, 35⟩⟩,
        ⟨.paren, ⟨32, 35⟩⟩] ∧
    ∃ before n after, sampleLengthsType.textNodes = before ++ n :: after ∧
      n.unsupported? = some ⟨.lengthExpression, ⟨21, 24⟩⟩ ∧
      ∀ m ∈ sampleLengthsType.textNodes, m.unsupported? ≠ none →
        n.span.start ≤ m.span.start := by
  have htype : sampleLengthsFile.HasType sampleLengthsType :=
    ⟨_, List.mem_cons_self, _, List.mem_cons_self, .self⟩
  have herror : sampleLengthsType.render = .error ⟨.lengthExpression, ⟨21, 24⟩⟩ := rfl
  obtain ⟨before, n, after, hnodes, -, hn, -, hfirst⟩ :=
    (render_failsFirst parseSource_sampleLengths htype).2 _ herror
  exact ⟨parseSource_sampleLengths, htype, herror, rfl, before, n, after,
    hnodes, hn, hfirst⟩

end GoInventory
