import GoInventory.Proofs.Tag.Escapes

/-!
# Decoding byte by byte

A literal can also be decoded in a loop over the bytes of its body, with a
position that each turn moves on by as much as it has read: one byte that stands
for itself, or a whole escape (`ByteDecoder.turn?`). The letter of an octal
escape is its first digit, so its digits start one byte before the position. A
body without a backslash needs no loop (`ByteDecoder.plain?`).

The loop meets the specification of the decoder: from a position where
characters start, it comes to the end if they spell something, and has then
added what they spell (`loop?_of_spells`, `spells_of_loop?`). It need not stop
at the end of every character, since the bytes of a longer one are copied one by
one (`loop?_copy`). So the loop, the short way and the decoder of characters all
agree (`unquote_spelled`).
-/

namespace GoInventory

namespace ByteDecoder

/-- The bytes from one position up to another, if there are so many. -/
def window? (bytes : List UInt8) (start stop : Nat) : Option (List UInt8) :=
  if start ≤ stop ∧ stop ≤ bytes.length then some ((bytes.take stop).drop start)
    else none

/-- The number that bytes spell as hexadecimal digits. -/
def hexNumber? (digits : List UInt8) : Option Nat :=
  EscapedText.hexNumber? (digits.map Char.ofUInt8)

/-- The byte that three bytes spell as octal digits. -/
def octalByte? (digits : List UInt8) : Option UInt8 :=
  match digits.map Char.ofUInt8 with
  | [a, b, c] => EscapedText.octalByte? a b c
  | _ => none

/-- What an escape spells, and the position behind it. The position `i` is the
one behind its letter. -/
def escape? (bytes : List UInt8) (letter : UInt8) (i : Nat) :
    Option (List UInt8 × Nat) :=
  match EscapedText.simpleEscape? (Char.ofUInt8 letter) with
  | some b => some ([b], i)
  | none =>
    if 0x30 ≤ letter ∧ letter ≤ 0x37 then do
      let b ← octalByte? (← window? bytes (i - 1) (i + 2))
      return ([b], i + 2)
    else if letter = 0x78 then do
      let n ← hexNumber? (← window? bytes i (i + 2))
      return ([UInt8.ofNat n], i + 2)
    else if letter = 0x75 ∨ letter = 0x55 then do
      let width := if letter = 0x75 then 4 else 8
      let n ← hexNumber? (← window? bytes i (i + width))
      return (← EscapedText.codePointBytes? n, i + width)
    else none

/-- What the loop adds at a position, and where it goes on. -/
def turn? (bytes : List UInt8) (i : Nat) : Option (List UInt8 × Nat) := do
  let b ← bytes[i]?
  if b = 0x22 ∨ b = 0x0A then none
  else if b = 0x5C then escape? bytes (← bytes[i + 1]?) (i + 2)
  else some ([b], i + 1)

/-- What an escape can be. -/
theorem escape?_cases {bytes bs : List UInt8} {letter : UInt8} {i j : Nat}
    (h : escape? bytes letter i = some (bs, j)) :
    (∃ b, EscapedText.simpleEscape? (Char.ofUInt8 letter) = some b ∧
      bs = [b] ∧ j = i) ∨
    (∃ digits b, window? bytes (i - 1) (i + 2) = some digits ∧
      octalByte? digits = some b ∧ bs = [b] ∧ j = i + 2) ∨
    (letter = 0x78 ∧ ∃ digits n, window? bytes i (i + 2) = some digits ∧
      hexNumber? digits = some n ∧
      bs = [UInt8.ofNat n] ∧ j = i + 2) ∨
    ∃ width, (letter = 0x75 ∧ width = 4 ∨ letter = 0x55 ∧ width = 8) ∧ ∃ digits n,
      window? bytes i (i + width) = some digits ∧ hexNumber? digits = some n ∧
      EscapedText.codePointBytes? n = some bs ∧ j = i + width := by
  unfold escape? at h
  split at h
  next b hb =>
    cases h
    exact Or.inl ⟨b, hb, rfl, rfl⟩
  next =>
    split at h
    next =>
      obtain ⟨digits, hdigits, h⟩ := Option.bind_eq_some_iff.mp h
      obtain ⟨b, hb, h⟩ := Option.bind_eq_some_iff.mp h
      cases h
      exact Or.inr (Or.inl ⟨digits, b, hdigits, hb, rfl, rfl⟩)
    next =>
      split at h
      next hx =>
        obtain ⟨digits, hdigits, h⟩ := Option.bind_eq_some_iff.mp h
        obtain ⟨n, hn, h⟩ := Option.bind_eq_some_iff.mp h
        cases h
        exact Or.inr (Or.inr (Or.inl ⟨hx, digits, n, hdigits, hn, rfl, rfl⟩))
      next =>
        split at h
        next hu =>
          obtain ⟨digits, hdigits, h⟩ := Option.bind_eq_some_iff.mp h
          obtain ⟨n, hn, h⟩ := Option.bind_eq_some_iff.mp h
          obtain ⟨encoded, hencoded, h⟩ := Option.bind_eq_some_iff.mp h
          cases h
          refine Or.inr
            (Or.inr (Or.inr ⟨_, ?_, digits, n, hdigits, hn, hencoded, rfl⟩))
          rcases hu with rfl | rfl
          · exact Or.inl ⟨rfl, rfl⟩
          · exact Or.inr ⟨rfl, rfl⟩
        next => cases h

/-- What a turn can do. -/
theorem turn?_cases {bytes bs : List UInt8} {i j : Nat}
    (h : turn? bytes i = some (bs, j)) :
    (∃ b, bytes[i]? = some b ∧ b ≠ 0x5C ∧ bs = [b] ∧ j = i + 1) ∨
    (bytes[i]? = some 0x5C ∧ ∃ letter, bytes[i + 1]? = some letter ∧
      escape? bytes letter (i + 2) = some (bs, j)) := by
  obtain ⟨b, hb, h⟩ := Option.bind_eq_some_iff.mp h
  split at h
  next => cases h
  next =>
    split at h
    next hslash =>
      obtain ⟨letter, hletter, h⟩ := Option.bind_eq_some_iff.mp h
      exact Or.inr ⟨hslash ▸ hb, letter, hletter, h⟩
    next hslash =>
      cases h
      exact Or.inl ⟨b, hb, hslash, rfl, rfl⟩

theorem lt_of_turn? {bytes bs : List UInt8} {i j : Nat}
    (h : turn? bytes i = some (bs, j)) : i < j := by
  rcases turn?_cases h with ⟨-, -, -, -, rfl⟩ | ⟨-, letter, -, hescape⟩
  · exact Nat.lt_succ_self i
  · rcases escape?_cases hescape with ⟨-, -, -, rfl⟩ | ⟨-, -, -, -, -, rfl⟩
      | ⟨-, -, -, -, -, -, rfl⟩ |
      ⟨width, -, -, -, -, -, -, rfl⟩ <;> omega

/-- Everything from a position on, added to what there is. -/
def loop? (bytes : List UInt8) (i : Nat) (out : List UInt8) : Option (List UInt8) :=
  if i < bytes.length then
    match _h : turn? bytes i with
    | none => none
    | some (bs, j) => loop? bytes j (out ++ bs)
  else some out
termination_by bytes.length - i
decreasing_by
  have := lt_of_turn? _h
  omega

/-- The text of a body, by the loop. -/
def looped? (body : List Char) : Option String :=
  (loop? (Text.encode body) 0 []).bind Text.decode?

/-- The text of a body without a backslash, which is the body. -/
def plain? (body : List Char) : Option String :=
  if '\x22' ∈ body ∨ '\n' ∈ body then none else some (String.ofList body)

/-- The text of a literal. -/
def unquote? (literal : List Char) : Option String := do
  let body ← EscapedText.body? literal
  if '\\' ∈ body then looped? body else plain? body

/-! ## Windows -/

section Windows

variable {bytes front rest : List UInt8} {i n : Nat}

theorem window?_of_drop (hne : front ≠ []) (h : bytes.drop i = front ++ rest) :
    window? bytes i (i + front.length) = some front := by
  have hlength := congrArg List.length h
  rw [List.length_drop, List.length_append] at hlength
  have hpos := List.length_pos_iff.mpr hne
  unfold window?
  rw [if_pos (by omega), List.drop_take, Nat.add_sub_cancel_left, h, List.take_left]

theorem drop_of_window? (h : window? bytes i (i + n) = some front) :
    front.length = n ∧ bytes.drop i = front ++ bytes.drop (i + n) := by
  unfold window? at h
  split at h
  next hle =>
    cases h
    rw [List.drop_take, Nat.add_sub_cancel_left, ← List.drop_drop,
      List.take_append_drop, List.length_take, List.length_drop]
    exact ⟨by omega, rfl⟩
  next => cases h

end Windows

/-- ASCII bytes in a window are the next characters. -/
theorem chars_of_window? {bytes digits : List UInt8} {cs : List Char} {i n : Nat}
    (hwindow : window? bytes i (i + n) = some digits)
    (hascii : ∀ c ∈ digits.map Char.ofUInt8, c.toNat < 128)
    (h : bytes.drop i = Text.encode cs) :
    (digits.map Char.ofUInt8).length = n ∧
    ∃ rest, cs = digits.map Char.ofUInt8 ++ rest ∧
      bytes.drop (i + n) = Text.encode rest := by
  obtain ⟨hlength, hdrop⟩ := drop_of_window? hwindow
  have hbytes : ∀ b ∈ digits, b.toNat < 128 := by
    intro b hb
    have hlt := hascii _ (List.mem_map_of_mem hb)
    rwa [Text.toNat_ofUInt8] at hlt
  obtain ⟨rest, hcs, hrest⟩ := Text.encode_eq_append hbytes (h.symm.trans hdrop)
  exact ⟨by rw [List.length_map, hlength], rest, hcs, hrest.symm⟩

/-! ## Single turns -/

section Turns

open EscapedText

variable {bytes bs out : List UInt8} {i j : Nat} {rest : List Char}

theorem loop?_of_turn? (h : turn? bytes i = some (bs, j)) :
    loop? bytes i out = loop? bytes j (out ++ bs) := by
  have hlt : i < bytes.length := by
    rcases turn?_cases h with ⟨b, hb, -⟩ | ⟨hb, -⟩
    · exact (List.getElem?_eq_some_iff.mp hb).1
    · exact (List.getElem?_eq_some_iff.mp hb).1
  rw [loop?, if_pos hlt]
  split
  next hnone =>
    rw [h] at hnone
    cases hnone
  next hsome =>
    rw [h] at hsome
    cases hsome
    rfl

/-- An escape is read in one turn. -/
theorem turn?_of_escape {letter : UInt8} {more : List UInt8}
    (hdrop : bytes.drop i = 0x5C :: letter :: more) :
    turn? bytes i = escape? bytes letter (i + 2) := by
  have hnext : bytes.drop (i + 1) = letter :: more := Text.drop_add [0x5C] hdrop
  unfold turn?
  rw [Text.getElem?_of_drop hdrop, Text.getElem?_of_drop hnext]
  rfl

/-- ASCII characters ahead are found in a window. -/
theorem window?_encode {digits : List Char} (hne : digits ≠ [])
    (hascii : ∀ c ∈ digits, c.toNat < 128)
    (h : bytes.drop i = Text.encode digits ++ Text.encode rest) :
    window? bytes i (i + digits.length) = some (Text.encode digits) := by
  have hlength := Text.length_encode_of_ascii hascii
  have hne' : Text.encode digits ≠ [] := by
    rw [← List.length_pos_iff, hlength]
    exact List.length_pos_iff.mpr hne
  rw [← hlength]
  exact window?_of_drop hne' h

theorem hexNumber?_encode {digits : List Char} {n : Nat} (h : Numeral 16 digits n) :
    hexNumber? (Text.encode digits) = some n := by
  unfold hexNumber?
  rw [Text.map_ofUInt8_encode h.ascii]
  exact hexNumber?_eq_some_iff.mpr h

theorem octalByte?_encode {digits : List Char} {n : Nat} (hlength : digits.length = 3)
    (h : Numeral 8 digits n) (hle : n ≤ 255) :
    octalByte? (Text.encode digits) = some (UInt8.ofNat n) := by
  unfold octalByte?
  rw [Text.map_ofUInt8_encode h.ascii]
  obtain ⟨a, b, c, rfl⟩ := List.length_eq_three.mp hlength
  exact octalByte?_eq_some_iff.mpr ⟨n, h, hle, rfl⟩

theorem numeral_of_octalByte? {digits : List UInt8} {b : UInt8}
    (h : octalByte? digits = some b) :
    ∃ n, Numeral 8 (digits.map Char.ofUInt8) n ∧ n ≤ 255 ∧ b = UInt8.ofNat n := by
  unfold octalByte? at h
  split at h
  next hmap =>
    rw [hmap]
    exact octalByte?_eq_some_iff.mp h
  next => cases h

theorem ascii_of_letter {c : Char} {b : UInt8} (h : (c, b) ∈ letterEscapes) :
    c.toNat < 128 := by
  have htable : ∀ e ∈ letterEscapes, e.1.toNat < 128 := by decide
  exact htable _ h

/-- The first octal digit is the letter of its escape. -/
theorem escape?_octal {c : Char} {v : Nat} (h : IsDigit 8 c v) :
    escape? bytes (UInt8.ofNat c.toNat) i =
      (window? bytes (i - 1) (i + 2)).bind
        fun digits => (octalByte? digits).bind fun b => some ([b], i + 2) := by
  obtain ⟨hlt, h⟩ := h
  interval_cases v <;> simp at h <;> subst h <;> rfl

/-- An escape with hexadecimal digits behind its letter, which spell something
by their number. -/
theorem turn?_of_hex (letter : UInt8) (spell : Nat → Option (List UInt8))
    {mark : Char} {digits : List Char}
    {n width : Nat}
    (hescape : ∀ i, escape? bytes letter i
      = (window? bytes i (i + width)).bind fun ds =>
      (hexNumber? ds).bind fun n => (spell n).bind
        fun spelled => some (spelled, i + width))
    (hmark : String.utf8EncodeChar mark = [letter]) (hlength : digits.length = width)
      (hne : digits ≠ [])
    (hdigits : Numeral 16 digits n) (hspell : spell n = some bs)
    (hdrop : bytes.drop i
      = Text.encode ('\\' :: mark :: digits) ++ Text.encode rest) :
    turn? bytes i = some (bs, i + (Text.encode ('\\' :: mark :: digits)).length) := by
  have hencode : Text.encode ('\\' :: mark :: digits)
      = 0x5C :: letter :: Text.encode digits := by
    rw [Text.encode_cons, Text.encode_cons, hmark]
    rfl
  rw [hencode] at hdrop ⊢
  have hwindow :=
    window?_encode hne hdigits.ascii (Text.drop_add [0x5C, letter] hdrop)
  rw [hlength] at hwindow
  have hwindow : window? bytes (i + 2) (i + 2 + width) = some (Text.encode digits) :=
    hwindow
  rw [turn?_of_escape hdrop, hescape, hwindow, Option.bind_some,
    hexNumber?_encode hdigits, Option.bind_some, hspell,
    Option.bind_some, List.length_cons, List.length_cons,
      Text.length_encode_of_ascii hdigits.ascii, hlength,
    Nat.add_right_comm i 2 width]
  rfl

/-- A piece with a backslash is read in one turn. -/
theorem turn?_of_piece {piece : List Char} (h : Piece ('\\' :: piece) bs)
    (hdrop : bytes.drop i = Text.encode ('\\' :: piece) ++ Text.encode rest) :
    turn? bytes i = some (bs, i + (Text.encode ('\\' :: piece)).length) := by
  generalize hpiece : '\\' :: piece = whole at h hdrop ⊢
  cases h with
  | char _ hslash => exact absurd (List.cons.inj hpiece).1.symm hslash
  | @letter c b hletter =>
    have hascii := ascii_of_letter hletter
    have hencode : Text.encode ['\\', c] = [0x5C, UInt8.ofNat c.toNat] := by
      rw [Text.encode_cons, Text.encode_cons, Text.utf8EncodeChar_of_ascii hascii]
      rfl
    rw [hencode] at hdrop ⊢
    rw [turn?_of_escape hdrop]
    unfold escape?
    rw [Text.ofUInt8_ofNat hascii, simpleEscape?_eq_some_iff.mpr hletter]
    rfl
  | @octal digits n hlength hdigits hle =>
    have hascii := hdigits.ascii
    -- the window opens at the letter, which is the first of the three digits
    have hwindow := window?_encode (List.ne_nil_of_length_eq_add_one hlength) hascii
      (Text.drop_add [0x5C] hdrop)
    have hwindow : window? bytes (i + 2 - 1) (i + 2 + 2)
        = some (Text.encode digits) := by
      rw [hlength] at hwindow
      exact hwindow
    have hlen : (Text.encode ('\\' :: digits)).length = 4 := by
      rw [Text.encode_cons, List.length_append,
        Text.length_encode_of_ascii hascii, hlength]
      rfl
    rw [hlen]
    have hbyte := octalByte?_encode hlength hdigits hle
    obtain ⟨a, b, c, rfl⟩ := List.length_eq_three.mp hlength
    obtain ⟨x, _, _, ha, -⟩ := numeral_three.mp hdigits
    have hencode : Text.encode ['\\', a, b, c]
        = 0x5C :: UInt8.ofNat a.toNat :: Text.encode [b, c] := by
      rw [Text.encode_cons, Text.encode_cons, Text.utf8EncodeChar_of_ascii ha.ascii]
      rfl
    rw [hencode] at hdrop
    rw [turn?_of_escape hdrop, escape?_octal ha, hwindow, Option.bind_some, hbyte]
    rfl
  | @hex digits n hlength hdigits =>
    refine turn?_of_hex 0x78 (fun n => some [UInt8.ofNat n]) (fun i => rfl)
      rfl hlength ?_ hdigits
      rfl hdrop
    exact List.ne_nil_of_length_eq_add_one hlength
  | @short digits c hlength hdigits =>
    refine turn?_of_hex 0x75 codePointBytes? (fun i => ?_)
      rfl hlength ?_ hdigits ?_ hdrop
    · rfl
    · exact List.ne_nil_of_length_eq_add_one hlength
    · exact codePointBytes?_eq_some_iff.mpr ⟨c, rfl, rfl⟩
  | @long digits c hlength hdigits =>
    refine turn?_of_hex 0x55 codePointBytes? (fun i => ?_)
      rfl hlength ?_ hdigits ?_ hdrop
    · rfl
    · exact List.ne_nil_of_length_eq_add_one hlength
    · exact codePointBytes?_eq_some_iff.mpr ⟨c, rfl, rfl⟩

/-- What is read in a turn from a backslash on is a piece. -/
theorem piece_of_turn? (h : turn? bytes i = some (bs, j))
    (hdrop : bytes.drop i = Text.encode ('\\' :: rest)) :
    ∃ piece more, '\\' :: rest = piece ++ more ∧ Piece piece bs ∧
      bytes.drop j = Text.encode more := by
  have hslash : bytes[i]? = some 0x5C := Text.getElem?_of_drop hdrop
  rcases turn?_cases h with ⟨b, hb, hne, -⟩ | ⟨-, letter, hletter, hescape⟩
  · rw [hslash] at hb
    cases hb
    exact absurd rfl hne
  have hrest : bytes.drop (i + 1) = Text.encode rest := Text.drop_add [0x5C] hdrop
  -- a letter in the ASCII range is the next character
  have hmark : letter.toNat < 128 → ∃ more, rest = Char.ofUInt8 letter :: more ∧
      bytes.drop (i + 2) = Text.encode more := by
    intro hascii
    have hencode : Text.encode rest = letter :: bytes.drop (i + 2) := by
      obtain ⟨hlt, heq⟩ := List.getElem?_eq_some_iff.mp hletter
      rw [← hrest, List.drop_eq_getElem_cons hlt, heq]
    obtain ⟨more, hmore, hbehind⟩ := Text.encode_eq_cons hencode hascii
    exact ⟨more, hmore, hbehind.symm⟩
  rcases escape?_cases hescape with ⟨b, hb, rfl, rfl⟩
    | ⟨digits, b, hwindow, hb, rfl, rfl⟩ |
    ⟨rfl, digits, n, hwindow, hn, rfl, rfl⟩
      | ⟨width, hwidth, digits, n, hwindow, hn, hencoded, rfl⟩
  · have hmem := simpleEscape?_eq_some_iff.mp hb
    have hascii := ascii_of_letter hmem
    rw [Text.toNat_ofUInt8] at hascii
    obtain ⟨more, rfl, hmore⟩ := hmark hascii
    exact ⟨_, more, rfl, .letter hmem, hmore⟩
  · obtain ⟨n, hdigits, hle, rfl⟩ := numeral_of_octalByte? hb
    obtain ⟨hlength, behind, rfl, hbehind⟩ :=
      chars_of_window? (n := 3) hwindow hdigits.ascii hrest
    exact ⟨_, behind, rfl, .octal hlength hdigits hle, hbehind⟩
  · obtain ⟨more, rfl, hmore⟩ := hmark (by decide)
    have hdigits := hexNumber?_eq_some_iff.mp hn
    obtain ⟨hlength, behind, rfl, hbehind⟩ :=
      chars_of_window? hwindow hdigits.ascii hmore
    exact ⟨_, behind, rfl, .hex hlength hdigits, hbehind⟩
  · obtain ⟨c, rfl, rfl⟩ := codePointBytes?_eq_some_iff.mp hencoded
    have hdigits := hexNumber?_eq_some_iff.mp hn
    rcases hwidth with ⟨rfl, rfl⟩ | ⟨rfl, rfl⟩
    · obtain ⟨more, rfl, hmore⟩ := hmark (by decide)
      obtain ⟨hlength, behind, rfl, hbehind⟩ :=
        chars_of_window? hwindow hdigits.ascii hmore
      exact ⟨_, behind, rfl, .short hlength hdigits, hbehind⟩
    · obtain ⟨more, rfl, hmore⟩ := hmark (by decide)
      obtain ⟨hlength, behind, rfl, hbehind⟩ :=
        chars_of_window? hwindow hdigits.ascii hmore
      exact ⟨_, behind, rfl, .long hlength hdigits, hbehind⟩

end Turns

/-! ## The loop -/

section Loop

open EscapedText

variable {bytes bs out : List UInt8} {i : Nat} {body : List Char}

theorem loop?_at_end (h : bytes.drop i = []) : loop? bytes i out = some out := by
  have hle := List.drop_eq_nil_iff.mp h
  rw [loop?, if_neg (Nat.not_lt.mpr hle)]

/-- The loop gives up where a turn does. -/
theorem loop?_of_turn?_none {c : Char} {rest : List UInt8}
    (hdrop : bytes.drop i = String.utf8EncodeChar c ++ rest)
    (h : turn? bytes i = none) : loop? bytes i out = none := by
  have hlength := congrArg List.length hdrop
  have hpos := List.length_pos_iff.mpr (Text.utf8EncodeChar_ne_nil c)
  rw [List.length_drop, List.length_append] at hlength
  rw [loop?, if_pos (by omega)]
  split
  next => rfl
  next hsome =>
    rw [h] at hsome
    cases hsome

/-- Bytes that stand for themselves are copied one by one. -/
theorem loop?_copy {run rest : List UInt8}
    (hrun : ∀ b ∈ run, b ≠ 0x22 ∧ b ≠ 0x0A ∧ b ≠ 0x5C) :
    ∀ {i : Nat} {out : List UInt8}, bytes.drop i = run ++ rest →
      loop? bytes i out = loop? bytes (i + run.length) (out ++ run) := by
  induction run with
  | nil =>
    intro i out _
    rw [List.append_nil]
    rfl
  | cons b run ih =>
    intro i out h
    obtain ⟨⟨hquote, hline, hslash⟩, hrun⟩ := List.forall_mem_cons.mp hrun
    have hturn : turn? bytes i = some ([b], i + 1) := by
      unfold turn?
      rw [Text.getElem?_of_drop h]
      simp [hquote, hline, hslash]
    have hnext : bytes.drop (i + 1) = run ++ rest := Text.drop_add [b] h
    rw [loop?_of_turn? hturn, ih hrun hnext, List.length_cons, List.append_assoc,
      Nat.add_right_comm, Nat.add_assoc]
    rfl

/-- No byte of another character is a quote, a line feed or a backslash. -/
theorem plain_of_mem {c : Char} (hquote : c ≠ '\x22') (hline : c ≠ '\n')
    (hslash : c ≠ '\\') :
    ∀ b ∈ String.utf8EncodeChar c, b ≠ 0x22 ∧ b ≠ 0x0A ∧ b ≠ 0x5C := by
  intro b hb
  refine ⟨?_, ?_, ?_⟩
  · exact Text.ne_of_mem_utf8EncodeChar hb (by decide) hquote
  · exact Text.ne_of_mem_utf8EncodeChar hb (by decide) hline
  · exact Text.ne_of_mem_utf8EncodeChar hb (by decide) hslash

/-- A body that spells something is decoded to it. -/
theorem loop?_of_spells (h : Spells body bs) :
    ∀ {i : Nat} {out : List UInt8}, bytes.drop i = Text.encode body →
      loop? bytes i out = some (out ++ bs) := by
  induction h with
  | nil =>
    intro i out hdrop
    rw [List.append_nil]
    exact loop?_at_end hdrop
  | @cons piece body bs more hpiece _ ih =>
    intro i out hdrop
    rw [Text.encode_append] at hdrop
    -- an escape takes one turn, a character one for each of its bytes
    have hstep : loop? bytes i out
        = loop? bytes (i + (Text.encode piece).length) (out ++ bs) := by
      cases hpiece with
      | @char c hquote hslash hline =>
        have hencode : Text.encode [c] = String.utf8EncodeChar c := by
          simp [Text.encode]
        rw [hencode] at hdrop ⊢
        exact loop?_copy (plain_of_mem hquote hline hslash) hdrop
      | letter hletter =>
        exact loop?_of_turn? (turn?_of_piece (.letter hletter) hdrop)
      | octal hlength hdigits hle =>
        exact loop?_of_turn? (turn?_of_piece (.octal hlength hdigits hle) hdrop)
      | hex hlength hdigits =>
        exact loop?_of_turn? (turn?_of_piece (.hex hlength hdigits) hdrop)
      | short hlength hdigits =>
        exact loop?_of_turn? (turn?_of_piece (.short hlength hdigits) hdrop)
      | long hlength hdigits =>
        exact loop?_of_turn? (turn?_of_piece (.long hlength hdigits) hdrop)
    rw [hstep, ih (Text.drop_add _ hdrop), List.append_assoc]

/-- What is decoded is spelled by the body. The induction is on the characters
ahead, since the loop also stops within a character. -/
theorem spells_of_loop? {result : List UInt8} : ∀ {i : Nat} {out : List UInt8},
    bytes.drop i = Text.encode body → loop? bytes i out = some result →
    ∃ bs, Spells body bs ∧ result = out ++ bs := by
  induction hn : body.length using Nat.strongRecOn generalizing body with
  | ind n ih =>
    intro i out hdrop h
    cases body with
    | nil =>
      rw [loop?_at_end hdrop] at h
      cases h
      exact ⟨[], .nil, (List.append_nil _).symm⟩
    | cons c rest =>
      -- the rest of the body after a piece
      have hnext : ∀ {piece more : List Char} {bs : List UInt8} {j : Nat},
        c :: rest = piece ++ more →
          Piece piece bs → bytes.drop j = Text.encode more →
            loop? bytes j (out ++ bs) = some result →
          ∃ bs, Spells (c :: rest) bs ∧ result = out ++ bs := by
        intro piece more bs j hsplit hpiece hdrop h
        have hlt : more.length < n := by
          have hlength := congrArg List.length hsplit
          have hpos : 0 < piece.length := by cases hpiece <;> exact Nat.succ_pos _
          rw [List.length_append] at hlength
          omega
        obtain ⟨more', hmore, rfl⟩ := ih _ hlt rfl hdrop h
        exact ⟨bs ++ more', hsplit ▸ .cons hpiece hmore, List.append_assoc ..⟩
      have hc : bytes.drop i = String.utf8EncodeChar c ++ Text.encode rest := by
        rw [hdrop, Text.encode_cons]
      by_cases hslash : c = '\\'
      · subst hslash
        cases hturn : turn? bytes i with
        | none => exact absurd (h.symm.trans (loop?_of_turn?_none hc hturn)) nofun
        | some next =>
          obtain ⟨bs, j⟩ := next
          obtain ⟨piece, more, hsplit, hpiece, hmore⟩ := piece_of_turn? hturn hdrop
          rw [loop?_of_turn? hturn] at h
          exact hnext hsplit hpiece hmore h
      by_cases hquote : c = '\x22'
      · subst hquote
        have hturn : turn? bytes i = none := by simp [turn?, Text.getElem?_of_drop hc]
        exact absurd (h.symm.trans (loop?_of_turn?_none hc hturn)) nofun
      by_cases hline : c = '\n'
      · subst hline
        have hturn : turn? bytes i = none := by simp [turn?, Text.getElem?_of_drop hc]
        exact absurd (h.symm.trans (loop?_of_turn?_none hc hturn)) nofun
      rw [loop?_copy (plain_of_mem hquote hline hslash) hc] at h
      exact hnext (List.singleton_append).symm (.char hquote hslash hline)
        (Text.drop_add _ hc) h

/-- **The loop over bytes decodes as the decoder of characters does.** -/
theorem loop?_encode (body : List Char) :
    loop? (Text.encode body) 0 [] = bytes? body := by
  refine Option.ext fun bs => ?_
  rw [bytes?_eq_some_iff]
  constructor
  · intro h
    obtain ⟨spelled, hspelled, rfl⟩ := spells_of_loop? List.drop_zero h
    exact hspelled
  · intro h
    exact loop?_of_spells h List.drop_zero

theorem looped?_eq (body : List Char) :
    looped? body = (bytes? body).bind Text.decode? := by
  rw [looped?, loop?_encode]

/-- A body without a backslash stands for itself, unless it has a quote
or a line feed. -/
theorem bytes?_of_plain (h : '\\' ∉ body) :
    bytes? body = if '\x22' ∈ body ∨ '\n' ∈ body then none
      else some (Text.encode body) := by
  induction body with
  | nil => rfl
  | cons c rest ih =>
    obtain ⟨hc, hrest⟩ := List.ne_and_not_mem_of_not_mem_cons h
    rw [bytes?_char hc.symm, ih hrest]
    by_cases hbad : c = '\x22' ∨ c = '\n'
    · have hany : '\x22' ∈ c :: rest ∨ '\n' ∈ c :: rest := by
        rcases hbad with rfl | rfl
        · exact Or.inl List.mem_cons_self
        · exact Or.inr List.mem_cons_self
      rw [if_pos hbad, if_pos hany]
    · obtain ⟨hquote, hline⟩ := not_or.mp hbad
      rw [if_neg hbad]
      by_cases hmore : '\x22' ∈ rest ∨ '\n' ∈ rest
      · rw [if_pos hmore,
          if_pos (hmore.imp (List.mem_cons_of_mem c) (List.mem_cons_of_mem c))]
        rfl
      · obtain ⟨hnoquote, hnoline⟩ := not_or.mp hmore
        rw [if_neg hmore,
          if_neg (by simp [Ne.symm hquote, Ne.symm hline, hnoquote, hnoline]),
          Option.map_some, Text.encode_cons]

/-- The short way comes to what the loop comes to. -/
theorem plain?_eq_looped? (h : '\\' ∉ body) : plain? body = looped? body := by
  unfold plain?
  rw [looped?_eq, bytes?_of_plain h]
  split
  next => rfl
  next =>
    rw [Option.bind_some, eq_comm, Text.decode?_eq_some_iff, Text.bytes,
      String.toList_ofList]

theorem unquote?_eq (literal : List Char) :
    unquote? literal = EscapedText.unquote? literal := by
  unfold unquote? EscapedText.unquote?
  refine congrArg (Option.bind _) (funext fun body => ?_)
  split
  next => exact looped?_eq body
  next h => exact (plain?_eq_looped? h).trans (looped?_eq body)

end Loop

end ByteDecoder

namespace EscapedText

/-- **A literal decodes to a text exactly if it is a body in quotes, and the
body spells the bytes of the text.** A body that spells bytes which are no text
decodes to nothing; a body without a backslash is decoded by the loop as it is
without; and the loop over bytes decodes every literal as the recursion over
characters does. -/
theorem unquote_spelled (literal : String) :
    (∀ text, unquote? literal.toList = some text ↔
      ∃ body, literal.toList = '\x22' :: (body ++ ['\x22']) ∧
        Spells body (Text.bytes text)) ∧
    (∀ body bs, literal.toList = '\x22' :: (body ++ ['\x22']) → Spells body bs →
      (∀ text, bs ≠ Text.bytes text) →
      unquote? literal.toList = none) ∧
    (∀ body, '\\' ∉ body → ByteDecoder.plain? body = ByteDecoder.looped? body) ∧
    ByteDecoder.unquote? literal.toList = unquote? literal.toList := by
  refine ⟨fun text => unquote?_eq_some_iff, ?_,
    fun _ h => ByteDecoder.plain?_eq_looped? h, ByteDecoder.unquote?_eq _⟩
  intro body bs hliteral hspells hbs
  rw [Option.eq_none_iff_forall_not_mem]
  intro text h
  obtain ⟨body', hliteral', hspells'⟩ := unquote?_eq_some_iff.mp h
  -- both bodies are the text between the quotes, and a body spells one row of bytes
  have hbody : body = body' := by
    have heq := hliteral.symm.trans hliteral'
    exact List.append_cancel_right (List.cons.inj heq).2
  subst hbody
  have hboth :=
    (bytes?_eq_some_iff.mpr hspells).symm.trans (bytes?_eq_some_iff.mpr hspells')
  exact hbs text (Option.some.inj hboth)

/-- Two escapes can spell one character: `"\xc3\251"` is `"é"`. -/
theorem unquote_spelled_joined : unquote? "\x22\\xc3\\251\x22".toList = some "é" := by
  refine ((unquote_spelled "\x22\\xc3\\251\x22").1 "é").mpr
    ⟨"\\xc3\\251".toList, rfl, ?_⟩
  have hhex : Piece ['\\', 'x', 'c', '3'] [0xC3] :=
    .hex (show ['c', '3'].length = 2 from rfl) ⟨[12, 3], by decide, rfl⟩
  have hoctal : Piece ['\\', '2', '5', '1'] [0xA9] :=
    .octal (show ['2', '5', '1'].length = 3 from rfl)
      ⟨[2, 5, 1], by decide, rfl⟩ (by decide)
  exact .cons hhex (.cons hoctal .nil)

end EscapedText

end GoInventory
