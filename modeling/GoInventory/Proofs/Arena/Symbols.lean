import GoInventory.SymbolTable
import Mathlib.Algebra.GroupWithZero.Nat
import Mathlib.Data.Finset.Card
import Mathlib.Data.Set.Function

/-!
# Symbols number distinct texts

Entering texts in a symbol table numbers the distinct ones among them from zero,
without a gap, in the order in which they are first entered
(`SymbolTable.Numbers`). Which hash is used has no influence on the numbers: it
may give the same value to all texts.

The invariant of a table is that a text stands in it once, and that the bucket
of a hash holds the symbols of exactly those texts that have it, each of them
once (`SymbolTable.WellFormed`). One call keeps it (`WellFormed.intern`), so
looking up a text in its bucket is the same as looking for it among all texts
(`WellFormed.find?_eq_some_iff`).

A table can also be kept with symbols of 32 bits, where a larger number is cut
off without notice and a number without a text is a crash (`NarrowTable`). As
long as there are not too many distinct texts, it hands out the same numbers and
never crashes (`NarrowTable.exists_after?`).
-/

namespace GoInventory

variable {hash : String → UInt64}

namespace SymbolTable

/-! ## The invariant -/

/-- The texts are distinct, and a symbol is in the bucket of a hash, and there
once, just if its text has this hash. -/
structure WellFormed (table : SymbolTable hash) : Prop where
  distinct : table.strings.toList.Nodup
  mem_bucket_iff : ∀ h s, s ∈ table.bucket h ↔
    ∃ text, table.resolve? s = some text ∧ hash text = h
  bucket_nodup : ∀ h, (table.bucket h).Nodup

/-- A symbol is the number of its text in the order of entry. -/
theorem resolve?_eq (table : SymbolTable hash) (s : Symbol) :
    table.resolve? s = table.strings.toList[s.index]? :=
  Array.getElem?_toList.symm

/-- The texts of a table are those that its symbols resolve to. -/
theorem mem_strings_iff {table : SymbolTable hash} {text : String} :
    text ∈ table.strings.toList ↔ ∃ s, table.resolve? s = some text := by
  rw [List.mem_iff_getElem?]
  constructor
  · rintro ⟨i, hi⟩
    exact ⟨⟨i⟩, (table.resolve?_eq ⟨i⟩).trans hi⟩
  · rintro ⟨s, hs⟩
    exact ⟨s.index, (table.resolve?_eq s).symm.trans hs⟩

theorem index_lt_of_resolve? {table : SymbolTable hash} {s : Symbol} {text : String}
    (h : table.resolve? s = some text) : s.index < table.strings.size :=
  (Array.getElem?_eq_some_iff.mp h).1

/-- A symbol that is found leads to the text that was looked for. -/
theorem resolve?_of_find? {table : SymbolTable hash} {text : String} {s : Symbol}
    (h : table.find? text = some s) : table.resolve? s = some text :=
  eq_of_beq (List.find?_some (p := fun s => table.resolve? s == some text) h)

namespace WellFormed

variable {table : SymbolTable hash} {text : String} {s : Symbol}

/-- A text has one symbol. -/
theorem resolve?_inj (h : table.WellFormed) {a b : Symbol}
    (ha : table.resolve? a = some text) (hb : table.resolve? b = some text) :
    a = b := by
  have hlt := index_lt_of_resolve? ha
  rw [resolve?_eq] at ha hb
  have hindex : a.index = b.index :=
    (List.getElem?_inj (by rwa [Array.length_toList]) h.distinct).mp
      (ha.trans hb.symm)
  cases a
  cases b
  exact congrArg Symbol.mk hindex

/-- Looking for a text in its bucket finds it wherever it is in the table. -/
theorem find?_eq_some_iff (h : table.WellFormed) :
    table.find? text = some s ↔ table.resolve? s = some text := by
  refine ⟨resolve?_of_find?, fun hs => ?_⟩
  have hmem : s ∈ table.bucket (hash text) :=
    (h.mem_bucket_iff _ s).mpr ⟨text, hs, rfl⟩
  cases hfind : table.find? text with
  | some other => rw [h.resolve?_inj (resolve?_of_find? hfind) hs]
  | none =>
    have hno := List.find?_eq_none.mp hfind s hmem
    exact absurd (beq_iff_eq.mpr hs) hno

/-- **A text is not found exactly if it has not been entered.** -/
theorem find?_eq_none_iff (h : table.WellFormed) :
    table.find? text = none ↔ text ∉ table.strings.toList := by
  rw [Option.eq_none_iff_forall_not_mem, mem_strings_iff, not_exists]
  exact forall_congr' fun s => not_congr h.find?_eq_some_iff

end WellFormed

/-! ## One call -/

/-- The table with a text put behind the others. -/
def enter (table : SymbolTable hash) (text : String) : SymbolTable hash :=
  ⟨table.strings.push text,
    table.buckets.insert (hash text)
      (table.bucket (hash text) ++ [⟨table.strings.size⟩])⟩

/-- A text that is there is not entered again. -/
theorem intern_of_find?_some {table : SymbolTable hash} {text : String} {s : Symbol}
    (h : table.find? text = some s) : table.intern text = (s, table) := by
  unfold intern
  rw [h]

/-- A new text gets the next number. -/
theorem intern_of_find?_none {table : SymbolTable hash} {text : String}
    (h : table.find? text = none) :
    table.intern text = (⟨table.strings.size⟩, table.enter text) := by
  unfold intern
  rw [h]
  rfl

/-- A text that is in the table keeps its symbol, and the table stays as it is. -/
theorem WellFormed.intern_of_resolve? {table : SymbolTable hash} {text : String}
    {s : Symbol} (h : table.WellFormed) (hs : table.resolve? s = some text) :
    table.intern text = (s, table) :=
  intern_of_find?_some (h.find?_eq_some_iff.mpr hs)

/-- A new text gets the next number. -/
theorem WellFormed.intern_of_not_mem {table : SymbolTable hash} {text : String}
    (h : table.WellFormed) (hnew : text ∉ table.strings.toList) :
    table.intern text = (⟨table.strings.size⟩, table.enter text) :=
  intern_of_find?_none (h.find?_eq_none_iff.mpr hnew)

/-- Entering a text changes what its own number resolves to, and nothing else. -/
theorem resolve?_enter (table : SymbolTable hash) (text : String) (s : Symbol) :
    (table.enter text).resolve? s = if s.index = table.strings.size then some text
      else table.resolve? s :=
  Array.getElem?_push

/-- A new text goes to the end of the bucket of its hash. -/
theorem bucket_enter (table : SymbolTable hash) (text : String) (h : UInt64) :
    (table.enter text).bucket h
      = table.bucket h ++ if hash text = h then [⟨table.strings.size⟩] else [] := by
  unfold bucket enter
  rw [Std.HashMap.getD_insert]
  by_cases hhash : hash text = h
  · subst hhash
    simp [bucket]
  · simp [hhash]

/-- A table with a text entered has all it had before. -/
theorem strings_intern (table : SymbolTable hash) (text : String) :
    table.strings.toList <+: (table.intern text).2.strings.toList := by
  cases hfind : table.find? text with
  | some s =>
    rw [intern_of_find?_some hfind]
  | none =>
    rw [intern_of_find?_none hfind, enter, Array.toList_push]
    exact List.prefix_append _ _

/-- The number of a text in the table leads to it. -/
theorem resolve?_intern (table : SymbolTable hash) (text : String) :
    (table.intern text).2.resolve? (table.intern text).1 = some text := by
  cases hfind : table.find? text with
  | some s =>
    rw [intern_of_find?_some hfind]
    exact resolve?_of_find? hfind
  | none =>
    rw [intern_of_find?_none hfind, resolve?_enter]
    exact if_pos rfl

theorem bucket_empty (h : UInt64) : (empty : SymbolTable hash).bucket h = [] :=
  Std.HashMap.getD_empty

/-- In the empty table there is nothing to be found. -/
theorem wellFormed_empty : (empty : SymbolTable hash).WellFormed := by
  refine ⟨List.nodup_nil, fun h s => ?_, fun h => ?_⟩
  · rw [bucket_empty]
    refine ⟨nofun, ?_⟩
    rintro ⟨text, hs, -⟩
    exact absurd (index_lt_of_resolve? hs) (Nat.not_lt_zero _)
  · rw [bucket_empty]
    exact List.nodup_nil

namespace WellFormed

variable {table : SymbolTable hash} {text : String}

/-- Entering a new text keeps the table well-formed. -/
theorem enter (h : table.WellFormed) (hnew : text ∉ table.strings.toList) :
    (table.enter text).WellFormed := by
  have hfresh : ∀ key, (⟨table.strings.size⟩ : Symbol) ∉ table.bucket key := by
    intro key hmem
    obtain ⟨other, hother, -⟩ := (h.mem_bucket_iff key _).mp hmem
    exact absurd (index_lt_of_resolve? hother) (Nat.lt_irrefl _)
  refine ⟨?_, fun key s => ?_, fun key => ?_⟩
  · show (table.strings.push text).toList.Nodup
    rw [Array.toList_push, List.nodup_append]
    refine ⟨h.distinct, List.nodup_singleton _, fun a ha b hb heq => ?_⟩
    rw [heq, List.mem_singleton.mp hb] at ha
    exact hnew ha
  · rw [bucket_enter, List.mem_append, resolve?_enter, h.mem_bucket_iff]
    by_cases hs : s.index = table.strings.size
    · -- the new symbol: its text is the new one
      obtain rfl : s = ⟨table.strings.size⟩ := by
        cases s
        exact congrArg Symbol.mk hs
      have hold : ¬ ∃ text, table.resolve? ⟨table.strings.size⟩ = some text ∧
          hash text = key := by
        rintro ⟨other, hother, -⟩
        exact absurd (index_lt_of_resolve? hother) (Nat.lt_irrefl _)
      by_cases hkey : hash text = key <;> simp [hold, hkey]
    · have hlist : s ∉ (if hash text = key then [(⟨table.strings.size⟩ : Symbol)]
          else []) := by
        intro hmem
        split at hmem
        · exact hs (congrArg Symbol.index (List.mem_singleton.mp hmem))
        · cases hmem
      rw [if_neg hs, or_iff_left hlist]
  · rw [bucket_enter, List.nodup_append]
    refine ⟨h.bucket_nodup key, ?_, fun a ha b hb heq => ?_⟩
    · split
      · exact List.nodup_singleton _
      · exact List.nodup_nil
    · split at hb
      · rw [heq, List.mem_singleton.mp hb] at ha
        exact hfresh key ha
      · cases hb

/-- One call keeps the invariant. -/
theorem intern (h : table.WellFormed) (text : String) :
    (table.intern text).2.WellFormed := by
  by_cases hmem : text ∈ table.strings.toList
  · obtain ⟨s, hs⟩ := mem_strings_iff.mp hmem
    rw [h.intern_of_resolve? hs]
    exact h
  · rw [h.intern_of_not_mem hmem]
    exact h.enter hmem

/-- One call adds just its text. -/
theorem mem_strings_intern (h : table.WellFormed) (text other : String) :
    other ∈ (table.intern text).2.strings.toList ↔
      other ∈ table.strings.toList ∨ other = text := by
  by_cases hmem : text ∈ table.strings.toList
  · obtain ⟨s, hs⟩ := mem_strings_iff.mp hmem
    rw [h.intern_of_resolve? hs]
    exact ⟨Or.inl, fun hother => hother.elim id (· ▸ hmem)⟩
  · rw [h.intern_of_not_mem hmem]
    show other ∈ (table.strings.push text).toList ↔ _
    rw [Array.toList_push, List.mem_append, List.mem_singleton]

end WellFormed

/-! ## All calls -/

variable (hash)

/-- The table after these calls. -/
def after (texts : List String) : SymbolTable hash :=
  texts.foldl (fun table text => (table.intern text).2) .empty

/-- The symbol that a call returns after these calls. -/
def symbolAfter (texts : List String) (text : String) : Symbol :=
  ((after hash texts).intern text).1

/-- A further text is interned last. -/
theorem after_concat (texts : List String) (text : String) :
    after hash (texts ++ [text]) = ((after hash texts).intern text).2 := by
  unfold after
  rw [List.foldl_append]
  rfl

/-- Interning gives the number of the text among those entered so far. -/
theorem intern_after (texts : List String) (text : String) :
    (after hash texts).intern text
      = (symbolAfter hash texts text, after hash (texts ++ [text])) := by
  rw [after_concat]
  rfl

/-- However many texts are entered, the table is well-formed. -/
theorem wellFormed_after (texts : List String) : (after hash texts).WellFormed := by
  induction texts using List.reverseRecOn with
  | nil => exact wellFormed_empty
  | append_singleton texts text ih =>
    rw [after_concat]
    exact ih.intern text

/-- Exactly the texts of the sequence are in the table. -/
theorem mem_strings_after (texts : List String) (text : String) :
    text ∈ (after hash texts).strings.toList ↔ text ∈ texts := by
  induction texts using List.reverseRecOn with
  | nil => exact ⟨nofun, nofun⟩
  | append_singleton texts last ih =>
    rw [after_concat, (wellFormed_after hash texts).mem_strings_intern, ih,
      List.mem_append, List.mem_singleton]

/-- The table holds as many texts as there are distinct ones. -/
theorem size_after (texts : List String) :
    (after hash texts).strings.size = texts.toFinset.card := by
  have hsame : (after hash texts).strings.toList.toFinset = texts.toFinset := by
    ext text
    rw [List.mem_toFinset, List.mem_toFinset, mem_strings_after]
  rw [← hsame, List.toFinset_card_of_nodup (wellFormed_after hash texts).distinct,
    Array.length_toList]

/-- Texts that were entered stay where they are. -/
theorem strings_after_append (texts more : List String) :
    (after hash texts).strings.toList
      <+: (after hash (texts ++ more)).strings.toList := by
  induction more using List.reverseRecOn with
  | nil => rw [List.append_nil]
  | append_singleton more last ih =>
    rw [← List.append_assoc, after_concat]
    exact ih.trans (strings_intern _ last)

/-- A symbol that was returned leads to its text after all later calls. -/
theorem resolve?_after (before : List String) (text : String) (later : List String) :
    (after hash (before ++ text :: later)).resolve? (symbolAfter hash before text)
      = some text := by
  have hcall : (after hash (before ++ [text])).resolve? (symbolAfter hash before text)
      = some text := by
    rw [after_concat]
    exact resolve?_intern _ text
  have hprefix := strings_after_append hash (before ++ [text]) later
  rw [List.append_assoc, List.singleton_append] at hprefix
  rw [resolve?_eq] at hcall ⊢
  obtain ⟨hlt, heq⟩ := List.getElem?_eq_some_iff.mp hcall
  rw [List.prefix_iff_getElem?.mp hprefix _ hlt, heq]

end SymbolTable

/-! ## Symbols of 32 bits -/

/-- The low 32 bits of a number. -/
def Symbol.narrow (s : Symbol) : UInt32 :=
  .ofNat s.index

/-- A symbol table whose symbols have 32 bits. -/
structure NarrowTable (hash : String → UInt64) where
  strings : Array String
  buckets : Std.HashMap UInt64 (List UInt32)

namespace NarrowTable

/-- A table without symbols. -/
def empty : NarrowTable hash := ⟨#[], ∅⟩

/-- The text of a symbol; a symbol without a text is a crash. -/
def resolve? (table : NarrowTable hash) (s : UInt32) : Option String :=
  table.strings[s.toNat]?

/-- The symbols whose text has this hash. -/
def bucket (table : NarrowTable hash) (h : UInt64) : List UInt32 :=
  table.buckets.getD h []

/-- The first of these symbols that has the text, unless looking for it crashes. -/
def search? (table : NarrowTable hash) (text : String) :
    List UInt32 → Option (Option UInt32)
  | [] => some none
  | s :: rest =>
    match table.resolve? s with
    | none => none
    | some found => if found == text then some (some s) else table.search? text rest

/-- The table with a text put behind the others. -/
def enter (table : NarrowTable hash) (text : String) : NarrowTable hash :=
  ⟨table.strings.push text,
    table.buckets.insert (hash text)
      (table.bucket (hash text) ++ [.ofNat table.strings.size])⟩

/-- The symbol of a text, which is entered if it is new. -/
def intern? (table : NarrowTable hash) (text : String) :
    Option (UInt32 × NarrowTable hash) :=
  (table.search? text (table.bucket (hash text))).map fun
    | some s => (s, table)
    | none => (.ofNat table.strings.size, table.enter text)

/-- The table after these calls, unless one of them crashes. -/
def after? (hash : String → UInt64) (texts : List String) :
    Option (NarrowTable hash) :=
  texts.foldlM (fun table text => (table.intern? text).map Prod.snd) .empty

/-- The same texts, and the same symbols in 32 bits. -/
structure Narrows (narrow : NarrowTable hash) (table : SymbolTable hash) : Prop where
  strings : narrow.strings = table.strings
  bucket : ∀ h, narrow.bucket h = (table.bucket h).map Symbol.narrow

variable {narrow : NarrowTable hash} {table : SymbolTable hash}

/-- A number below the bound is not changed by narrowing. -/
theorem toNat_narrow {s : Symbol} (h : s.index < 2 ^ 32) : s.narrow.toNat = s.index :=
  UInt32.toNat_ofNat_of_lt' h

/-- **Searching with narrow numbers finds what searching with wide ones does.** -/
theorem Narrows.search?_map (h : narrow.Narrows table)
    (hsize : table.strings.size ≤ 2 ^ 32) (text : String) {symbols : List Symbol}
    (hin : ∀ s ∈ symbols, s.index < table.strings.size) :
    narrow.search? text (symbols.map Symbol.narrow)
      = some ((symbols.find? fun s => table.resolve? s == some text).map
        Symbol.narrow) := by
  induction symbols with
  | nil => rfl
  | cons s rest ih =>
    have hlt := hin s List.mem_cons_self
    have hrest := ih fun other hother => hin other (List.mem_cons_of_mem s hother)
    have hsame : narrow.resolve? s.narrow = table.resolve? s := by
      unfold resolve? SymbolTable.resolve?
      rw [toNat_narrow (Nat.lt_of_lt_of_le hlt hsize), h.strings]
    obtain ⟨found, hfound⟩ : ∃ found, table.resolve? s = some found :=
      ⟨_, Array.getElem?_eq_getElem hlt⟩
    rw [List.map_cons, search?, hsame, hfound, hrest, List.find?_cons, hfound]
    by_cases heq : found = text
    · simp [heq]
    · have hbeq : (found == text) = false := beq_false_of_ne heq
      simp [hbeq]

/-- Entering a text in both tables keeps them in step. -/
theorem Narrows.enter (h : narrow.Narrows table) (text : String) :
    (narrow.enter text).Narrows (table.enter text) := by
  refine ⟨congrArg (·.push text) h.strings, fun key => ?_⟩
  have hold := h.bucket key
  unfold NarrowTable.bucket SymbolTable.bucket at hold ⊢
  unfold NarrowTable.enter SymbolTable.enter
  rw [Std.HashMap.getD_insert, Std.HashMap.getD_insert]
  split
  · rw [h.bucket, h.strings, List.map_append]
    rfl
  · exact hold

/-- One call on both tables returns the same symbol and leaves the same texts. -/
theorem Narrows.exists_intern? (h : narrow.Narrows table) (hwell : table.WellFormed)
    (hsize : table.strings.size ≤ 2 ^ 32) (text : String) :
    ∃ next, narrow.intern? text = some ((table.intern text).1.narrow, next) ∧
      next.Narrows (table.intern text).2 := by
  have hin : ∀ s ∈ table.bucket (hash text), s.index < table.strings.size := by
    intro s hs
    obtain ⟨other, hother, -⟩ := (hwell.mem_bucket_iff _ s).mp hs
    exact SymbolTable.index_lt_of_resolve? hother
  have hsearch : narrow.search? text (narrow.bucket (hash text))
      = some ((table.find? text).map Symbol.narrow) := by
    rw [h.bucket]
    exact h.search?_map hsize text hin
  unfold intern?
  rw [hsearch]
  cases hfind : table.find? text with
  | some s =>
    rw [SymbolTable.intern_of_find?_some hfind]
    exact ⟨narrow, rfl, h⟩
  | none =>
    rw [SymbolTable.intern_of_find?_none hfind]
    refine ⟨narrow.enter text, ?_, h.enter text⟩
    rw [h.strings]
    rfl

theorem after?_concat (texts : List String) (text : String) :
    after? hash (texts ++ [text])
      = (after? hash texts).bind fun table => (table.intern? text).map Prod.snd := by
  unfold after?
  rw [List.foldlM_append]
  simp only [List.foldlM_cons, List.foldlM_nil, bind_pure]
  rfl

/-- As long as there are not too many distinct texts, all calls on both
tables do the same. -/
theorem exists_after? (hash : String → UInt64) {texts : List String}
    (h : texts.toFinset.card ≤ 2 ^ 32) :
    ∃ narrow, after? hash texts = some narrow ∧
      narrow.Narrows (SymbolTable.after hash texts) := by
  induction texts using List.reverseRecOn with
  | nil =>
    refine ⟨empty, rfl, rfl, fun key => ?_⟩
    show empty.bucket key = (SymbolTable.empty.bucket key).map Symbol.narrow
    rw [SymbolTable.bucket_empty]
    exact Std.HashMap.getD_empty
  | append_singleton texts text ih =>
    have hle : texts.toFinset.card ≤ 2 ^ 32 := by
      refine Nat.le_trans (Finset.card_le_card ?_) h
      rw [List.toFinset_append]
      exact Finset.subset_union_left
    obtain ⟨narrow, hrun, hnarrow⟩ := ih hle
    rw [← SymbolTable.size_after hash] at hle
    obtain ⟨next, hcall, hnext⟩ :=
      hnarrow.exists_intern? (SymbolTable.wellFormed_after hash texts) hle text
    refine ⟨next, ?_, ?_⟩
    · rw [after?_concat, hrun, Option.bind_some, hcall]
      rfl
    · rw [SymbolTable.after_concat]
      exact hnext

end NarrowTable

/-! ## The numbering -/

namespace SymbolTable

/-- What all these calls make of a table. -/
structure Numbers (hash : String → UInt64) (texts : List String) : Prop where
  /-- A text that was seen before gets the symbol that it got then, and
  nothing changes. -/
  again : ∀ before text later, texts = before ++ text :: later →
    (after hash texts).intern text = (symbolAfter hash before text, after hash texts)
  /-- A new text gets the number of the distinct texts so far. -/
  fresh : ∀ text ∉ texts, symbolAfter hash texts text = ⟨texts.toFinset.card⟩
  /-- The symbols of the distinct texts are distinct, and all numbers below the
  number of texts. -/
  bijective : Set.BijOn (symbolAfter hash texts)
    {text | text ∈ texts} {s | s.index < texts.toFinset.card}
  /-- A symbol leads to its text, also after later calls. -/
  resolves : ∀ before text later, texts = before ++ text :: later →
    (after hash texts).resolve? (symbolAfter hash before text) = some text
  size_eq : (after hash texts).size = texts.toFinset.card
  mem_bucket_iff : ∀ h s, s ∈ (after hash texts).bucket h ↔
    ∃ text, (after hash texts).resolve? s = some text ∧ hash text = h
  bucket_nodup : ∀ h, ((after hash texts).bucket h).Nodup
  /-- With symbols of 32 bits no call crashes, and each returns the same number. -/
  narrows : ∃ narrow, NarrowTable.after? hash texts = some narrow ∧
    narrow.Narrows (after hash texts) ∧
    ∀ text, ∃ s next, narrow.intern? text = some (s, next) ∧
      next.Narrows (after hash (texts ++ [text])) ∧
      s.toNat = (symbolAfter hash texts text).index

/-- The symbols of a table are the numbers below its size. -/
theorem bijOn_symbolAfter (hash : String → UInt64) (texts : List String) :
    Set.BijOn (symbolAfter hash texts)
      {text | text ∈ texts} {s | s.index < texts.toFinset.card} := by
  have hwell := wellFormed_after hash texts
  -- the symbol of a text that was entered is the one that leads to it
  have hsymbol : ∀ {s text}, (after hash texts).resolve? s = some text →
      symbolAfter hash texts text = s :=
    fun hs => congrArg Prod.fst (hwell.intern_of_resolve? hs)
  have hleads : ∀ text ∈ texts,
      (after hash texts).resolve? (symbolAfter hash texts text) = some text := by
    intro text hmem
    obtain ⟨s, hs⟩ :=
      mem_strings_iff.mp ((mem_strings_after hash texts text).mpr hmem)
    rwa [hsymbol hs]
  refine ⟨fun text hmem => ?_, fun a ha b hb hab => ?_, fun s hs => ?_⟩
  · have hlt := index_lt_of_resolve? (hleads text hmem)
    rwa [size_after] at hlt
  · have hsame := (hleads a ha).symm.trans (hab ▸ hleads b hb)
    exact Option.some.inj hsame
  · have hlt : s.index < (after hash texts).strings.size := by
      rwa [size_after]
    have hs' : (after hash texts).resolve? s
        = some (after hash texts).strings[s.index] := Array.getElem?_eq_getElem hlt
    exact ⟨_, (mem_strings_after hash texts _).mp (mem_strings_iff.mpr ⟨s, hs'⟩),
      hsymbol hs'⟩

/-- **Symbols number the distinct texts, whatever the hash.** A text that
comes again keeps its symbol, a new one gets the next number, different texts
have different symbols, and every symbol goes on leading to its text. The
bucket of a hash holds the symbols of the texts that have it, each once. With
symbols of 32 bits the same holds as long as there are fewer distinct texts
than 32 bits can count. -/
theorem texts_numbered (hash : String → UInt64) {texts : List String}
    (h : texts.toFinset.card < 2 ^ 32) : Numbers hash texts := by
  have hwell := wellFormed_after hash texts
  have hsize := size_after hash texts
  refine ⟨?_, ?_, bijOn_symbolAfter hash texts, ?_, hsize, hwell.mem_bucket_iff,
    hwell.bucket_nodup, ?_⟩
  · rintro before text later rfl
    exact hwell.intern_of_resolve? (resolve?_after hash before text later)
  · intro text hnew
    rw [← mem_strings_after hash] at hnew
    rw [symbolAfter, hwell.intern_of_not_mem hnew, hsize]
  · rintro before text later rfl
    exact resolve?_after hash before text later
  · obtain ⟨narrow, hrun, hnarrow⟩ := NarrowTable.exists_after? hash (Nat.le_of_lt h)
    refine ⟨narrow, hrun, hnarrow, fun text => ?_⟩
    obtain ⟨next, hcall, hnext⟩ := hnarrow.exists_intern? hwell (by omega) text
    rw [intern_after] at hcall hnext
    refine ⟨_, next, hcall, hnext, NarrowTable.toNat_narrow ?_⟩
    by_cases hmem : text ∈ texts
    · exact Nat.lt_trans ((bijOn_symbolAfter hash texts).mapsTo hmem) h
    · rw [← mem_strings_after hash] at hmem
      rw [symbolAfter, hwell.intern_of_not_mem hmem, hsize]
      exact h

/-- In the sample all hashes are the same. -/
theorem texts_numbered_sampleCollisions :
    Numbers (fun _ => 0) ["Foo", "Bar", "Foo"] ∧
    symbolAfter (fun _ => 0) ["Foo", "Bar", "Foo"] "Baz" = ⟨2⟩ := by
  have h : Numbers (fun _ => 0) ["Foo", "Bar", "Foo"] := texts_numbered _ (by decide)
  exact ⟨h, h.fresh "Baz" (by decide)⟩

end SymbolTable

end GoInventory
