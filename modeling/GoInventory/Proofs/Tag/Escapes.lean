import GoInventory.Proofs.Text.Encoding
import GoInventory.StructTag
import Mathlib.Data.Nat.Digits.Defs
import Mathlib.Tactic.IntervalCases
import Mathlib.Tactic.Ring

/-!
# What an interpreted string spells

The body of an interpreted string is a row of pieces: characters that stand
for themselves, and escapes. Each piece spells a few bytes (`Piece`), and
the body spells the bytes of its pieces, one after the other (`Spells`).
Nothing is said of how a body is cut into pieces, and in particular not that
there is one way only.

The decoder finds such a cut if there is one, and the bytes are always the same
ones (`bytes?_eq_some_iff`). So a literal decodes to a text exactly if its body
spells the bytes of that text (`unquote?_eq_some_iff`).
-/

namespace GoInventory.EscapedText

/-- The character is the digit of this value; the digits above nine are small or
capital letters. -/
def IsDigit (base : Nat) (c : Char) (value : Nat) : Prop :=
  value < base ∧
    ("0123456789abcdef".toList[value]? = some c ∨
      "0123456789ABCDEF".toList[value]? = some c)

instance (base : Nat) (c : Char) (value : Nat) : Decidable (IsDigit base c value) :=
  inferInstanceAs (Decidable (_ ∧ _))

/-- The digits, the highest one first, are the number in this base. -/
def Numeral (base : Nat) (digits : List Char) (n : Nat) : Prop :=
  ∃ values, List.Forall₂ (IsDigit base) digits values ∧
    n = Nat.ofDigits base values.reverse

/-- The characters that stand for a byte behind a backslash. -/
def letterEscapes : List (Char × UInt8) :=
  [('a', 0x07), ('b', 0x08), ('f', 0x0C), ('n', 0x0A), ('r', 0x0D),
    ('t', 0x09), ('v', 0x0B),
    ('\\', 0x5C), ('\x22', 0x22)]

/-- A piece of a body and the bytes that it spells. -/
inductive Piece : List Char → List UInt8 → Prop
  | char {c : Char} : c ≠ '\x22' → c ≠ '\\' → c ≠ '\n' →
      Piece [c] (String.utf8EncodeChar c)
  | letter {c : Char} {b : UInt8} : (c, b) ∈ letterEscapes → Piece ['\\', c] [b]
  | octal {digits : List Char} {n : Nat} : digits.length = 3 →
      Numeral 8 digits n → n ≤ 255 →
    Piece ('\\' :: digits) [UInt8.ofNat n]
  | hex {digits : List Char} {n : Nat} : digits.length = 2 → Numeral 16 digits n →
    Piece ('\\' :: 'x' :: digits) [UInt8.ofNat n]
  | short {digits : List Char} {c : Char} : digits.length = 4 →
      Numeral 16 digits c.toNat →
    Piece ('\\' :: 'u' :: digits) (String.utf8EncodeChar c)
  | long {digits : List Char} {c : Char} : digits.length = 8 →
      Numeral 16 digits c.toNat →
    Piece ('\\' :: 'U' :: digits) (String.utf8EncodeChar c)

/-- The body is a row of pieces that spell these bytes. -/
inductive Spells : List Char → List UInt8 → Prop
  | nil : Spells [] []
  | cons {piece body : List Char} {bs more : List UInt8} : Piece piece bs →
      Spells body more →
    Spells (piece ++ body) (bs ++ more)

/-! ## Digits -/

/-- Digits of consecutive values are consecutive characters. -/
theorem isDigit_of_range {base : Nat} {low c : Char} (high : Char) (first : Nat)
    (hlow : low ≤ c) (hhigh : c ≤ high)
    (h : ∀ k ≤ high.toNat - low.toNat,
      IsDigit base (Char.ofNat (low.toNat + k)) (k + first)) :
    IsDigit base c (c.toNat - low.toNat + first) := by
  have hle : low.toNat ≤ c.toNat := hlow
  have hle' : c.toNat ≤ high.toNat := hhigh
  have hc := h (c.toNat - low.toNat) (by omega)
  rwa [Nat.add_sub_cancel' hle, Char.ofNat_toNat] at hc

theorem hexValue?_eq_some_iff {c : Char} {v : Nat} :
    hexValue? c = some v ↔ IsDigit 16 c v := by
  constructor
  · intro h
    unfold hexValue? at h
    split at h
    next hrange =>
      obtain ⟨hlow, hhigh⟩ := Bool.and_eq_true_iff.mp hrange
      cases h
      exact isDigit_of_range '9' 0 (of_decide_eq_true hlow)
        (of_decide_eq_true hhigh) (by decide)
    next =>
      split at h
      next hrange =>
        obtain ⟨hlow, hhigh⟩ := Bool.and_eq_true_iff.mp hrange
        cases h
        exact isDigit_of_range 'f' 10 (of_decide_eq_true hlow)
          (of_decide_eq_true hhigh) (by decide)
      next =>
        split at h
        next hrange =>
          obtain ⟨hlow, hhigh⟩ := Bool.and_eq_true_iff.mp hrange
          cases h
          exact isDigit_of_range 'F' 10 (of_decide_eq_true hlow)
            (of_decide_eq_true hhigh) (by decide)
        next => cases h
  · rintro ⟨hlt, h⟩
    interval_cases v <;> simp at h <;> rcases h with rfl | rfl <;> rfl

theorem octalValue?_eq_some_iff {c : Char} {v : Nat} :
    octalValue? c = some v ↔ IsDigit 8 c v := by
  constructor
  · intro h
    unfold octalValue? at h
    split at h
    next hrange =>
      obtain ⟨hlow, hhigh⟩ := Bool.and_eq_true_iff.mp hrange
      cases h
      exact isDigit_of_range '7' 0 (of_decide_eq_true hlow)
        (of_decide_eq_true hhigh) (by decide)
    next => cases h
  · rintro ⟨hlt, h⟩
    interval_cases v <;> simp at h <;> subst h <;> rfl

theorem numeral_three {base n : Nat} {a b c : Char} :
    Numeral base [a, b, c] n ↔ ∃ x y z, IsDigit base a x ∧ IsDigit base b y ∧
    IsDigit base c z ∧
      n = z + base * (y + base * x) := by
  constructor
  · rintro ⟨values, hvalues, rfl⟩
    obtain _ | ⟨ha, _ | ⟨hb, _ | ⟨hc, hnil⟩⟩⟩ := hvalues
    cases hnil
    exact ⟨_, _, _, ha, hb, hc, by simp [Nat.ofDigits]⟩
  · rintro ⟨x, y, z, ha, hb, hc, rfl⟩
    exact ⟨[x, y, z], .cons ha (.cons hb (.cons hc .nil)), by simp [Nat.ofDigits]⟩

theorem octalByte?_eq_some_iff {a b c : Char} {byte : UInt8} :
    octalByte? a b c = some byte ↔
    ∃ n, Numeral 8 [a, b, c] n ∧ n ≤ 255 ∧ byte = UInt8.ofNat n := by
  unfold octalByte?
  constructor
  · intro h
    obtain ⟨x, hx, h⟩ := Option.bind_eq_some_iff.mp h
    obtain ⟨y, hy, h⟩ := Option.bind_eq_some_iff.mp h
    obtain ⟨z, hz, h⟩ := Option.bind_eq_some_iff.mp h
    dsimp only at h
    split at h
    next hlt =>
      cases h
      refine ⟨64 * x + 8 * y + z,
        numeral_three.mpr ⟨x, y, z, ?_, ?_, ?_, by omega⟩, by omega, rfl⟩
      · exact octalValue?_eq_some_iff.mp hx
      · exact octalValue?_eq_some_iff.mp hy
      · exact octalValue?_eq_some_iff.mp hz
    next => cases h
  · rintro ⟨n, hnumeral, hle, rfl⟩
    obtain ⟨x, y, z, hx, hy, hz, rfl⟩ := numeral_three.mp hnumeral
    rw [octalValue?_eq_some_iff.mpr hx, octalValue?_eq_some_iff.mpr hy,
      octalValue?_eq_some_iff.mpr hz]
    have heq : 64 * x + 8 * y + z = z + 8 * (y + 8 * x) := by omega
    simp only [Option.bind_eq_bind, Option.bind_some, heq]
    rw [if_pos (by omega)]

/-- The number of the digits behind those that have been read. -/
theorem foldl_hexValue? {n : Nat} (digits : List Char) :
    ∀ start, digits.foldl (fun acc c => do return 16 * (← acc) + (← hexValue? c))
      (some start) = some n ↔
      ∃ values, List.Forall₂ (IsDigit 16) digits values ∧
        n = Nat.ofDigits 16 values.reverse + 16 ^ values.length * start := by
  induction digits with
  | nil =>
    intro start
    constructor
    · rintro ⟨⟩
      exact ⟨[], .nil, by simp⟩
    · rintro ⟨values, hvalues, rfl⟩
      cases hvalues
      simp
  | cons c digits ih =>
    intro start
    -- once a digit is missing, nothing is read any more
    have hnone : digits.foldl (fun acc c => do return 16 * (← acc) + (← hexValue? c))
        none = none :=
      List.foldl_fixed' (fun _ => rfl) digits
    have hsum : ∀ (v : Nat) (values : List Nat),
        Nat.ofDigits 16 (v :: values).reverse + 16 ^ (v :: values).length * start
          = Nat.ofDigits 16 values.reverse
            + 16 ^ values.length * (16 * start + v) := by
      intro v values
      rw [List.reverse_cons, Nat.ofDigits_append, List.length_reverse,
        List.length_cons, Nat.ofDigits_singleton]
      ring
    rw [List.foldl_cons]
    constructor
    · intro h
      cases hv : hexValue? c with
      | none =>
        rw [hv] at h
        exact absurd (hnone.symm.trans h) nofun
      | some v =>
        rw [hv] at h
        obtain ⟨values, hvalues, rfl⟩ := (ih _).mp h
        exact ⟨v :: values, .cons (hexValue?_eq_some_iff.mp hv) hvalues,
          (hsum v values).symm⟩
    · rintro ⟨values, hvalues, rfl⟩
      cases hvalues with
      | cons hv hvalues =>
        rw [hexValue?_eq_some_iff.mpr hv]
        exact (ih _).mpr ⟨_, hvalues, hsum _ _⟩

theorem hexNumber?_eq_some_iff {digits : List Char} {n : Nat} :
    hexNumber? digits = some n ↔ Numeral 16 digits n := by
  have h := foldl_hexValue? (n := n) digits 0
  unfold hexNumber? Numeral
  simpa only [Nat.mul_zero, Nat.add_zero] using h

/-- Digits are ASCII characters. -/
theorem IsDigit.ascii {base v : Nat} {c : Char} (h : IsDigit base c v) :
    c.toNat < 128 := by
  have htable : ("0123456789abcdef".toList ++ "0123456789ABCDEF".toList).all
      (·.toNat < 128) = true := by decide
  refine of_decide_eq_true (List.all_eq_true.mp htable c (List.mem_append.mpr ?_))
  rcases h.2 with hsmall | hcapital
  · exact Or.inl (List.mem_of_getElem? hsmall)
  · exact Or.inr (List.mem_of_getElem? hcapital)

theorem Numeral.ascii {base n : Nat} {digits : List Char} (h : Numeral base digits n) :
    ∀ c ∈ digits, c.toNat < 128 := by
  obtain ⟨values, hvalues, -⟩ := h
  induction hvalues with
  | nil => exact nofun
  | cons hv _ ih => exact List.forall_mem_cons.mpr ⟨hv.ascii, ih⟩

/-- A number has a UTF-8 form if it is the number of a character. -/
theorem codePointBytes?_eq_some_iff {n : Nat} {bs : List UInt8} :
    codePointBytes? n = some bs ↔
      ∃ c : Char, n = c.toNat ∧ bs = String.utf8EncodeChar c := by
  unfold codePointBytes?
  constructor
  · intro h
    split at h
    next hvalid =>
      cases h
      have hn : n = (Char.ofNat n).toNat := by
        rw [Char.ofNat, dif_pos hvalid]
        rfl
      exact ⟨Char.ofNat n, hn, rfl⟩
    next => cases h
  · rintro ⟨c, rfl, rfl⟩
    have hvalid : c.toNat.isValidChar := c.valid
    rw [if_pos hvalid, Char.ofNat_toNat]

theorem simpleEscape?_eq_some_iff {c : Char} {b : UInt8} :
    simpleEscape? c = some b ↔ (c, b) ∈ letterEscapes := by
  unfold simpleEscape?
  constructor
  · intro h
    split at h <;> cases h <;> decide
  · intro h
    simp only [letterEscapes, List.mem_cons, Prod.mk.injEq, List.not_mem_nil,
      or_false] at h
    rcases h with ⟨rfl, rfl⟩ | ⟨rfl, rfl⟩ | ⟨rfl, rfl⟩ | ⟨rfl, rfl⟩ | ⟨rfl, rfl⟩
      | ⟨rfl, rfl⟩ | ⟨rfl, rfl⟩ |
      ⟨rfl, rfl⟩ | ⟨rfl, rfl⟩ <;> rfl

/-! ## Bodies -/

section Equations

variable {c : Char} {rest : List Char}

/-- A character other than a backslash stands for itself, unless it is a quote
or a line feed. -/
theorem bytes?_char (h : c ≠ '\\') : bytes? (c :: rest) =
    if c = '\x22' ∨ c = '\n' then none
      else (bytes? rest).map (String.utf8EncodeChar c ++ ·) := by
  rw [Option.map_eq_bind]
  simp [bytes?, h]

/-- The escapes with digits do not start with a letter that stands for a byte. -/
theorem bytes?_letter {b : UInt8} (h : simpleEscape? c = some b) :
    bytes? ('\\' :: c :: rest) = (bytes? rest).map (b :: ·) := by
  have hx : c ≠ 'x' := by rintro rfl; cases h
  have hu : c ≠ 'u' := by rintro rfl; cases h
  have hU : c ≠ 'U' := by rintro rfl; cases h
  rw [Option.map_eq_bind]
  obtain _ | ⟨d, _ | ⟨e, more⟩⟩ := rest
  · simp [bytes?, h]
  · simp [bytes?, h]
  · simp [bytes?, h, hx, hu, hU]

/-- Neither do octal digits. -/
theorem bytes?_octal {v : Nat} {d e : Char} (h : IsDigit 8 c v) :
    bytes? ('\\' :: c :: d :: e :: rest) =
    (octalByte? c d e).bind fun b => (bytes? rest).map (b :: ·) := by
  simp only [Option.map_eq_bind]
  obtain ⟨hlt, h⟩ := h
  interval_cases v <;> simp at h <;> subst h <;> simp [bytes?, simpleEscape?]

end Equations

/-- A piece at the head of a body is decoded before the rest. -/
theorem Piece.bytes?_append {piece : List Char} {bs : List UInt8} (h : Piece piece bs)
    (rest : List Char) : bytes? (piece ++ rest) = (bytes? rest).map (bs ++ ·) := by
  cases h with
  | @char c hquote hslash hline =>
    show bytes? (c :: rest) = _
    rw [bytes?_char hslash, if_neg (by simp [hquote, hline])]
  | letter hletter => exact bytes?_letter (simpleEscape?_eq_some_iff.mpr hletter)
  | @octal digits n hlength hdigits hle =>
    obtain ⟨d, e, f, rfl⟩ := List.length_eq_three.mp hlength
    obtain ⟨x, _, _, hd, -⟩ := numeral_three.mp hdigits
    show bytes? ('\\' :: d :: e :: f :: rest) = _
    rw [bytes?_octal hd, octalByte?_eq_some_iff.mpr ⟨n, hdigits, hle, rfl⟩]
    rfl
  | @hex digits n hlength hdigits =>
    obtain ⟨d, e, rfl⟩ := List.length_eq_two.mp hlength
    show bytes? ('\\' :: 'x' :: d :: e :: rest) = _
    rw [bytes?, hexNumber?_eq_some_iff.mpr hdigits, Option.map_eq_bind]
    rfl
  | @short digits c hlength hdigits =>
    match digits, hlength with
    | [d, e, f, g], _ =>
      show bytes? ('\\' :: 'u' :: d :: e :: f :: g :: rest) = _
      rw [bytes?, hexNumber?_eq_some_iff.mpr hdigits, Option.bind_eq_bind,
        Option.bind_some,
        codePointBytes?_eq_some_iff.mpr ⟨c, rfl, rfl⟩, Option.map_eq_bind]
      rfl
  | @long digits c hlength hdigits =>
    match digits, hlength with
    | [d, e, f, g, i, j, k, l], _ =>
      show bytes? ('\\' :: 'U' :: d :: e :: f :: g :: i :: j :: k :: l :: rest) = _
      rw [bytes?, hexNumber?_eq_some_iff.mpr hdigits, Option.bind_eq_bind,
        Option.bind_some,
        codePointBytes?_eq_some_iff.mpr ⟨c, rfl, rfl⟩, Option.map_eq_bind]
      rfl

/-- **A body is decoded to the bytes that it spells.** -/
theorem bytes?_eq_some_iff {body : List Char} {bs : List UInt8} :
    bytes? body = some bs ↔ Spells body bs := by
  constructor
  · intro h
    fun_induction bytes? body generalizing bs with
    | case1 =>
      cases h
      exact .nil
    | case2 a b rest ih =>
      obtain ⟨n, hn, h⟩ := Option.bind_eq_some_iff.mp h
      obtain ⟨more, hmore, h⟩ := Option.bind_eq_some_iff.mp h
      cases h
      exact .cons (.hex (show [a, b].length = 2 from rfl)
        (hexNumber?_eq_some_iff.mp hn)) (ih hmore)
    | case3 a b c d rest ih =>
      obtain ⟨n, hn, h⟩ := Option.bind_eq_some_iff.mp h
      obtain ⟨encoded, hencoded, h⟩ := Option.bind_eq_some_iff.mp h
      obtain ⟨more, hmore, h⟩ := Option.bind_eq_some_iff.mp h
      cases h
      obtain ⟨char, rfl, rfl⟩ := codePointBytes?_eq_some_iff.mp hencoded
      exact .cons (.short (show [a, b, c, d].length = 4 from rfl)
        (hexNumber?_eq_some_iff.mp hn)) (ih hmore)
    | case4 a b c d e f g i rest ih =>
      obtain ⟨n, hn, h⟩ := Option.bind_eq_some_iff.mp h
      obtain ⟨encoded, hencoded, h⟩ := Option.bind_eq_some_iff.mp h
      obtain ⟨more, hmore, h⟩ := Option.bind_eq_some_iff.mp h
      cases h
      obtain ⟨char, rfl, rfl⟩ := codePointBytes?_eq_some_iff.mp hencoded
      exact .cons (.long (show [a, b, c, d, e, f, g, i].length = 8 from rfl)
        (hexNumber?_eq_some_iff.mp hn)) (ih hmore)
    | case5 e rest _ _ _ byte hbyte ih =>
      obtain ⟨more, hmore, h⟩ := Option.bind_eq_some_iff.mp h
      cases h
      exact .cons (.letter (simpleEscape?_eq_some_iff.mp hbyte)) (ih hmore)
    | case6 e hnone b c rest _ _ _ ih =>
      obtain ⟨byte, hbyte, h⟩ := Option.bind_eq_some_iff.mp h
      obtain ⟨more, hmore, h⟩ := Option.bind_eq_some_iff.mp h
      cases h
      obtain ⟨n, hn, hle, rfl⟩ := octalByte?_eq_some_iff.mp hbyte
      exact .cons (.octal (show [e, b, c].length = 3 from rfl) hn hle) (ih hmore)
    | case7 => cases h
    | case8 => cases h
    | case9 c rest _ _ _ _ hplain ih =>
      obtain ⟨more, hmore, h⟩ := Option.bind_eq_some_iff.mp h
      cases h
      simp only [Bool.or_eq_true, beq_iff_eq, not_or] at hplain
      exact .cons (.char hplain.1.2 hplain.1.1 hplain.2) (ih hmore)
  · intro h
    induction h with
    | nil => rfl
    | cons hpiece _ ih =>
      rw [hpiece.bytes?_append, ih]
      rfl

/-! ## Literals -/

theorem body?_eq_some_iff {literal body : List Char} :
    body? literal = some body ↔ literal = '\x22' :: (body ++ ['\x22']) := by
  constructor
  · intro h
    unfold body? at h
    split at h
    next rest =>
      split at h
      next hlast =>
        cases h
        rw [List.dropLast_append_getLast? _ (eq_of_beq hlast)]
      next => cases h
    next => cases h
  · rintro rfl
    simp [body?]

/-- **A literal stands for a text if its body spells the bytes of the text.** -/
theorem unquote?_eq_some_iff {literal : List Char} {text : String} :
    unquote? literal = some text ↔
    ∃ body, literal = '\x22' :: (body ++ ['\x22']) ∧
      Spells body (Text.bytes text) := by
  unfold unquote?
  constructor
  · intro h
    obtain ⟨body, hbody, h⟩ := Option.bind_eq_some_iff.mp h
    obtain ⟨bs, hbs, htext⟩ := Option.bind_eq_some_iff.mp h
    rw [Text.decode?_eq_some_iff] at htext
    rw [htext, bytes?_eq_some_iff] at hbs
    exact ⟨body, body?_eq_some_iff.mp hbody, hbs⟩
  · rintro ⟨body, hbody, hspells⟩
    rw [body?_eq_some_iff.mpr hbody, Option.bind_eq_bind, Option.bind_some,
      bytes?_eq_some_iff.mpr hspells]
    exact Text.decode?_eq_some_iff.mpr rfl

end GoInventory.EscapedText
