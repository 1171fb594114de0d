import GoInventory.Proofs.Text.Encoding
import GoInventory.StructTag

/-!
# Bodies between quotes

A body that may stand between two quotes is a row of single symbols, none of
them a quote or a backslash, and of pairs of a backslash and any symbol
(`QuotedBody`). The quote that closes it is found in one way only
(`QuotedBody.append_inj`).

The symbols may be bytes or characters. A backslash before a longer character is
then a pair of a backslash and the first byte of the character, and its other
bytes are single ones, so the two readings agree (`quotedBody_encode`).
-/

namespace GoInventory

/-- The symbols may stand between two quotes. -/
inductive QuotedBody {α : Type} (quote backslash : α) : List α → Prop
  | nil : QuotedBody quote backslash []
  | single {a : α} {rest : List α} : a ≠ quote → a ≠ backslash →
      QuotedBody quote backslash rest →
    QuotedBody quote backslash (a :: rest)
  | pair {a : α} {rest : List α} : QuotedBody quote backslash rest →
    QuotedBody quote backslash (backslash :: a :: rest)

section Symbols

variable {α : Type} {quote backslash a : α} {rest : List α}

theorem quotedBody_single (hquote : a ≠ quote) (hslash : a ≠ backslash) :
    QuotedBody quote backslash (a :: rest) ↔ QuotedBody quote backslash rest := by
  constructor
  · intro h
    cases h with
    | single _ _ h => exact h
    | pair => exact absurd rfl hslash
  · exact .single hquote hslash

theorem quotedBody_pair :
    QuotedBody quote backslash (backslash :: a :: rest) ↔
      QuotedBody quote backslash rest := by
  constructor
  · intro h
    cases h with
    | single _ hslash _ => exact absurd rfl hslash
    | pair h => exact h
  · exact .pair

theorem not_quotedBody_quote (hne : quote ≠ backslash) :
    ¬ QuotedBody quote backslash (quote :: rest) := by
  intro h
  cases h with
  | single hquote _ _ => exact hquote rfl
  | pair => exact hne rfl

theorem not_quotedBody_backslash : ¬ QuotedBody quote backslash [backslash] := by
  intro h
  cases h with
  | single _ hslash _ => exact hslash rfl

/-- Symbols that stand for themselves may be left out. -/
theorem quotedBody_append {run : List α} (hrun : ∀ a ∈ run, a ≠ quote ∧ a ≠ backslash) :
    QuotedBody quote backslash (run ++ rest) ↔ QuotedBody quote backslash rest := by
  induction run with
  | nil => exact Iff.rfl
  | cons a run ih =>
    obtain ⟨⟨hquote, hslash⟩, hrun⟩ := List.forall_mem_cons.mp hrun
    rw [List.cons_append, quotedBody_single hquote hslash]
    exact ih hrun

/-- **A body ends at one quote only.** -/
theorem QuotedBody.append_inj (hne : quote ≠ backslash) {body more : List α}
    (h : QuotedBody quote backslash body) :
    ∀ {body' more' : List α}, QuotedBody quote backslash body' →
      body ++ quote :: more = body' ++ quote :: more' →
      body = body' ∧ more = more' := by
  -- the induction is on one body; the first symbol of the row then tells how the
  -- other one starts
  induction h with
  | nil =>
    intro body' more' h' heq
    cases h' with
    | nil => exact ⟨rfl, (List.cons.inj heq).2⟩
    | single hquote _ _ => exact absurd (List.cons.inj heq).1.symm hquote
    | pair _ => exact absurd (List.cons.inj heq).1 hne
  | single hquote hslash _ ih =>
    intro body' more' h' heq
    cases h' with
    | nil => exact absurd (List.cons.inj heq).1 hquote
    | single _ _ h' =>
      obtain ⟨rfl, hrest⟩ := List.cons.inj heq
      obtain ⟨rfl, rfl⟩ := ih h' hrest
      exact ⟨rfl, rfl⟩
    | pair _ => exact absurd (List.cons.inj heq).1 hslash
  | pair _ ih =>
    intro body' more' h' heq
    cases h' with
    | nil => exact absurd (List.cons.inj heq).1.symm hne
    | single _ hslash _ => exact absurd (List.cons.inj heq).1.symm hslash
    | pair h' =>
      obtain ⟨rfl, hrest⟩ := List.cons.inj (List.cons.inj heq).2
      obtain ⟨rfl, rfl⟩ := ih h' hrest
      exact ⟨rfl, rfl⟩

/-- A body does not start with a quote. -/
theorem QuotedBody.head?_ne (hne : quote ≠ backslash) {body : List α}
    (h : QuotedBody quote backslash body) : body.head? ≠ some quote := by
  intro hhead
  cases h with
  | nil => cases hhead
  | single hquote _ _ => exact hquote (Option.some.inj hhead)
  | pair => exact hne (Option.some.inj hhead).symm

/-- A body that ends with a quote ends with a pair. -/
theorem QuotedBody.eq_append_of_getLast? {body : List α}
    (h : QuotedBody quote backslash body) (hlast : body.getLast? = some quote) :
    ∃ front, body = front ++ [backslash, quote] := by
  induction h with
  | nil => cases hlast
  | @single a rest hquote _ _ ih =>
    cases rest with
    | nil => exact absurd (Option.some.inj hlast) hquote
    | cons b rest =>
      rw [List.getLast?_cons_cons] at hlast
      obtain ⟨front, hfront⟩ := ih hlast
      exact ⟨a :: front, by rw [hfront]; rfl⟩
  | @pair a rest _ ih =>
    cases rest with
    | nil =>
      have ha : a = quote := Option.some.inj hlast
      exact ⟨[], by rw [ha]; rfl⟩
    | cons b rest =>
      rw [List.getLast?_cons_cons, List.getLast?_cons_cons] at hlast
      obtain ⟨front, hfront⟩ := ih hlast
      exact ⟨backslash :: a :: front, by rw [hfront]; rfl⟩

end Symbols

/-! ## Bytes and characters -/

/-- The bytes of a character other than a quote and a backslash stand
for themselves. -/
theorem plain_utf8EncodeChar {c : Char} (hquote : c ≠ '\x22') (hslash : c ≠ '\\') :
    ∀ b ∈ String.utf8EncodeChar c, b ≠ 0x22 ∧ b ≠ 0x5C := by
  intro b hb
  exact ⟨Text.ne_of_mem_utf8EncodeChar hb (by decide) hquote,
    Text.ne_of_mem_utf8EncodeChar hb (by decide) hslash⟩

/-- Behind its first byte, the bytes of a character stand for themselves. -/
theorem plain_tail_utf8EncodeChar (c : Char) :
    ∃ first more, String.utf8EncodeChar c = first :: more ∧ ∀ b ∈ more,
      b ≠ 0x22 ∧ b ≠ 0x5C := by
  rcases Text.ascii_cases c with ⟨-, hone⟩ | ⟨-, hall⟩
  · exact ⟨_, [], hone, nofun⟩
  · obtain ⟨first, more, hmore⟩ :=
      List.exists_cons_of_ne_nil (Text.utf8EncodeChar_ne_nil c)
    refine ⟨first, more, hmore, fun b hb => ?_⟩
    have hle := hall b (by rw [hmore]; exact List.mem_cons_of_mem _ hb)
    refine ⟨?_, ?_⟩
    · rintro rfl
      exact absurd hle (by decide)
    · rintro rfl
      exact absurd hle (by decide)

/-- **The bytes of a text may stand between quotes exactly if its
characters may.** -/
theorem quotedBody_encode : ∀ cs : List Char,
    QuotedBody 0x22 0x5C (Text.encode cs) ↔ QuotedBody '\x22' '\\' cs
  | [] => ⟨fun _ => .nil, fun _ => .nil⟩
  | c :: rest => by
    by_cases hslash : c = '\\'
    · subst hslash
      -- the pair takes one more character, and one more byte
      match rest with
      | [] => exact iff_of_false not_quotedBody_backslash not_quotedBody_backslash
      | d :: rest =>
        obtain ⟨first, more, hmore, hplain⟩ := plain_tail_utf8EncodeChar d
        have hencode : Text.encode ('\\' :: d :: rest)
            = 0x5C :: first :: (more ++ Text.encode rest) := by
          rw [Text.encode_cons, Text.encode_cons, hmore]
          rfl
        rw [hencode, quotedBody_pair, quotedBody_pair, quotedBody_append hplain]
        exact quotedBody_encode rest
    by_cases hquote : c = '\x22'
    · subst hquote
      exact iff_of_false (not_quotedBody_quote (by decide))
        (not_quotedBody_quote (by decide))
    -- any other character is one symbol here and a run of plain bytes there
    rw [Text.encode_cons, quotedBody_append (plain_utf8EncodeChar hquote hslash),
      quotedBody_single hquote hslash]
    exact quotedBody_encode rest

namespace StructTag

/-- Only a backslash is looked at together with the character behind it. -/
theorem splitValue?_cons {c : Char} {rest : List Char} (h : c ≠ '\\') :
    splitValue? (c :: rest) =
    if c == '\x22' then some ([], rest)
      else (splitValue? rest).map fun r => (c :: r.1, r.2) :=
  splitValue?.eq_2 c rest fun _ _ hc _ => absurd hc h

/-- **A value is cut off at the quote that ends its body.** -/
theorem splitValue?_eq_some_iff {cs body rest : List Char} :
    splitValue? cs = some (body, rest) ↔
      QuotedBody '\x22' '\\' body ∧ cs = body ++ '\x22' :: rest := by
  constructor
  · intro h
    fun_induction splitValue? cs generalizing body with
    | case1 c cs ih =>
      obtain ⟨⟨body', rest'⟩, hsplit, heq⟩ := Option.map_eq_some_iff.mp h
      cases heq
      obtain ⟨hbody, rfl⟩ := ih hsplit
      exact ⟨.pair hbody, rfl⟩
    | case2 c cs _ hquote =>
      cases h
      exact ⟨.nil, by rw [eq_of_beq hquote]; rfl⟩
    | case3 c cs hslash hquote ih =>
      obtain ⟨⟨body', rest'⟩, hsplit, heq⟩ := Option.map_eq_some_iff.mp h
      cases heq
      obtain ⟨hbody, rfl⟩ := ih hsplit
      refine ⟨.single (fun hc => hquote (by rw [hc]; rfl)) (fun hc => ?_) hbody, rfl⟩
      -- a backslash with something behind it is the head of a pair
      have hne : body' ++ '\x22' :: rest' ≠ [] :=
        List.append_ne_nil_of_right_ne_nil body' (List.cons_ne_nil _ _)
      obtain ⟨d, more, hd⟩ := List.exists_cons_of_ne_nil hne
      exact hslash d more hc hd
    | case4 => cases h
  · rintro ⟨hbody, rfl⟩
    induction hbody with
    | nil => rfl
    | single hquote hslash _ ih =>
      rw [List.cons_append, splitValue?_cons hslash, if_neg (by simp [hquote]), ih]
      rfl
    | pair _ ih =>
      rw [List.cons_append, List.cons_append, splitValue?, ih]
      rfl

end StructTag

end GoInventory
