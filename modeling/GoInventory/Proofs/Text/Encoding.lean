import GoInventory.Text.Bytes
import Mathlib.Data.String.Basic

/-!
# Characters and their bytes

An ASCII character is encoded as the byte with its number, and all bytes of any
other character lie above the ASCII range. So a scan that looks for ASCII bytes
finds the same in the bytes of a text as in its characters: an ASCII byte is a
character of its own (`encode_eq_cons`), and a run of bytes that a test takes is
the encoded run of the characters that the test takes (`takeWhile_encode`).
-/

namespace GoInventory.Text

theorem encode_cons (c : Char) (cs : List Char) :
    encode (c :: cs) = String.utf8EncodeChar c ++ encode cs := by
  simp [encode]

/-- Bytes are the UTF-8 form of one text at most. -/
theorem decode?_eq_some_iff {bs : List UInt8} {s : String} :
    decode? bs = some s ↔ bs = bytes s := by
  have hbytes : s.toByteArray = ⟨(bytes s).toArray⟩ := by
    conv => lhs; rw [← String.ofList_toList (s := s)]
    rw [String.toByteArray_ofList, List.utf8Encode]
    apply ByteArray.ext
    simp [bytes, encode]
  unfold decode? String.fromUTF8?
  constructor
  · intro h
    split at h
    next hvalid =>
      cases h
      simpa [String.fromUTF8] using hbytes
    next => cases h
  · rintro rfl
    have hvalid : ByteArray.IsValidUTF8 ⟨(bytes s).toArray⟩ := by
      rw [← hbytes]
      exact s.isValidUTF8
    rw [dif_pos hvalid, Option.some.injEq, ← String.toByteArray_inj, hbytes]
    rfl

/-! ## ASCII characters -/

/-- A byte in the ASCII range encodes its own character: the bytes of a longer
encoding are all above it. -/
theorem toNat_of_mem_utf8EncodeChar {c : Char} {b : UInt8}
    (h : b ∈ String.utf8EncodeChar c) (hascii : b.toNat < 128) :
    b.toNat = c.val.toNat := by
  unfold String.utf8EncodeChar at h
  simp only at h
  split at h
  next =>
    rw [List.mem_singleton.mp h, UInt8.toNat_ofNat']
    omega
  next =>
    exfalso
    have hbyte : ∃ n, b = UInt8.ofNat n ∧ 128 ≤ n ∧ n < 256 := by
      split at h
      · simp only [List.mem_cons, List.not_mem_nil, or_false] at h
        rcases h with rfl | rfl <;> exact ⟨_, rfl, by omega, by omega⟩
      · split at h
        · simp only [List.mem_cons, List.not_mem_nil, or_false] at h
          rcases h with rfl | rfl | rfl <;> exact ⟨_, rfl, by omega, by omega⟩
        · simp only [List.mem_cons, List.not_mem_nil, or_false] at h
          rcases h with rfl | rfl | rfl | rfl <;> exact ⟨_, rfl, by omega, by omega⟩
    obtain ⟨n, rfl, hlow, hhigh⟩ := hbyte
    rw [UInt8.toNat_ofNat'] at hascii
    omega

/-- An ASCII character is one byte. -/
theorem utf8EncodeChar_of_ascii {c : Char} (h : c.toNat < 128) :
    String.utf8EncodeChar c = [UInt8.ofNat c.toNat] := by
  have hle : c.val.toNat ≤ 127 := Nat.le_of_lt_succ h
  unfold String.utf8EncodeChar
  simp only
  rw [if_pos hle]
  rfl

theorem utf8EncodeChar_ne_nil (c : Char) : String.utf8EncodeChar c ≠ [] := by
  intro h
  have hlength := String.length_utf8EncodeChar c
  rw [h] at hlength
  exact absurd hlength.symm (Nat.pos_iff_ne_zero.mp c.utf8Size_pos)

/-- A character is an ASCII one, or all its bytes lie above the ASCII range. -/
theorem ascii_cases (c : Char) :
    c.toNat < 128 ∧ String.utf8EncodeChar c = [UInt8.ofNat c.toNat] ∨
    128 ≤ c.toNat ∧ ∀ b ∈ String.utf8EncodeChar c, 128 ≤ b.toNat := by
  by_cases hc : c.toNat < 128
  · exact Or.inl ⟨hc, utf8EncodeChar_of_ascii hc⟩
  · refine Or.inr ⟨Nat.le_of_not_lt hc, fun b hb => Nat.le_of_not_lt fun hlt => hc ?_⟩
    rw [toNat_of_mem_utf8EncodeChar hb hlt] at hlt
    exact hlt

/-- The character that a byte in the ASCII range encodes. -/
theorem toNat_ofUInt8 (b : UInt8) : (Char.ofUInt8 b).toNat = b.toNat :=
  UInt8.toNat_toUInt32 b

theorem ofUInt8_ofNat {c : Char} (h : c.toNat < 128) :
    Char.ofUInt8 (UInt8.ofNat c.toNat) = c := by
  refine Char.ext (UInt32.toNat_inj.mp ?_)
  show (Char.ofUInt8 (UInt8.ofNat c.toNat)).toNat = c.toNat
  rw [toNat_ofUInt8, UInt8.toNat_ofNat']
  omega

/-- The bytes of ASCII characters are the characters again. -/
theorem map_ofUInt8_encode {cs : List Char} (h : ∀ c ∈ cs, c.toNat < 128) :
    (encode cs).map Char.ofUInt8 = cs := by
  induction cs with
  | nil => rfl
  | cons c cs ih =>
    obtain ⟨hc, hcs⟩ := List.forall_mem_cons.mp h
    rw [encode_cons, utf8EncodeChar_of_ascii hc, List.singleton_append, List.map_cons,
      ofUInt8_ofNat hc, ih hcs]

theorem length_encode_of_ascii {cs : List Char} (h : ∀ c ∈ cs, c.toNat < 128) :
    (encode cs).length = cs.length := by
  rw [← List.length_map (f := Char.ofUInt8), map_ofUInt8_encode h]

/-- **An ASCII byte at the head of a text is its first character.** -/
theorem encode_eq_cons {cs : List Char} {b : UInt8} {bs : List UInt8}
    (h : encode cs = b :: bs) (hb : b.toNat < 128) :
    ∃ rest, cs = Char.ofUInt8 b :: rest ∧ encode rest = bs := by
  cases cs with
  | nil => cases h
  | cons c rest =>
    rw [encode_cons] at h
    rcases ascii_cases c with ⟨hc, hone⟩ | ⟨-, hall⟩
    · rw [hone, List.singleton_append, List.cons.injEq] at h
      exact ⟨rest, by rw [← h.1, ofUInt8_ofNat hc], h.2⟩
    · obtain ⟨first, more, hmore⟩ :=
        List.exists_cons_of_ne_nil (utf8EncodeChar_ne_nil c)
      rw [hmore, List.cons_append, List.cons.injEq] at h
      have hle := hall first (by rw [hmore]; exact List.mem_cons_self)
      rw [h.1] at hle
      omega

/-- ASCII bytes at the head of a text are its first characters. -/
theorem encode_eq_append {ascii bs : List UInt8} (hascii : ∀ b ∈ ascii, b.toNat < 128) :
    ∀ {cs : List Char}, encode cs = ascii ++ bs →
      ∃ rest, cs = ascii.map Char.ofUInt8 ++ rest ∧ encode rest = bs := by
  induction ascii with
  | nil =>
    intro cs h
    exact ⟨cs, rfl, h⟩
  | cons b ascii ih =>
    intro cs h
    obtain ⟨hb, hascii⟩ := List.forall_mem_cons.mp hascii
    obtain ⟨more, rfl, hmore⟩ := encode_eq_cons h hb
    obtain ⟨rest, rfl, hrest⟩ := ih hascii hmore
    exact ⟨rest, rfl, hrest⟩

/-- No byte of one character is another ASCII character. -/
theorem ne_of_mem_utf8EncodeChar {c d : Char} {b : UInt8}
    (hb : b ∈ String.utf8EncodeChar c) (hd : d.toNat < 128) (hne : c ≠ d) :
    b ≠ UInt8.ofNat d.toNat := by
  rintro rfl
  have hval : (UInt8.ofNat d.toNat).toNat = d.toNat := by
    rw [UInt8.toNat_ofNat']
    omega
  have heq := toNat_of_mem_utf8EncodeChar hb (by rw [hval]; exact hd)
  rw [hval] at heq
  exact hne (Char.ext (UInt32.toNat_inj.mp heq.symm))

/-- **An ASCII byte is a character of its own wherever it stands.** -/
theorem encode_eq_append_cons {b : UInt8} {bs : List UInt8} (hb : b.toNat < 128) :
    ∀ (cs : List Char) (front : List UInt8), encode cs = front ++ b :: bs →
      ∃ before behind, cs = before ++ Char.ofUInt8 b :: behind ∧
        encode before = front ∧ encode behind = bs := by
  intro cs
  induction cs with
  | nil =>
    intro front h
    exact absurd h (by simp)
  | cons c cs ih =>
    intro front h
    cases front with
    | nil =>
      obtain ⟨behind, hcs, hbehind⟩ := encode_eq_cons h hb
      exact ⟨[], behind, hcs, rfl, hbehind⟩
    | cons first front =>
      rw [encode_cons] at h
      rcases List.append_eq_append_iff.mp h with ⟨more, hmore, hrest⟩
        | ⟨more, hmore, hrest⟩
      · obtain ⟨before, behind, rfl, rfl, hbehind⟩ := ih more hrest
        exact ⟨c :: before, behind, rfl, by rw [encode_cons, hmore], hbehind⟩
      · cases more with
        | nil =>
          obtain ⟨before, behind, rfl, hbefore, hbehind⟩ := ih [] hrest.symm
          rw [List.append_nil] at hmore
          exact ⟨c :: before, behind,
            rfl, by rw [encode_cons, hmore, hbefore, List.append_nil], hbehind⟩
        | cons b' more =>
          -- the byte would lie inside the character, which is then an ASCII one
          -- and no longer
          obtain ⟨rfl, -⟩ := List.cons.inj hrest
          have hmem : b ∈ String.utf8EncodeChar c := by simp [hmore]
          have hc : c.toNat < 128 := by
            have hval := toNat_of_mem_utf8EncodeChar hmem hb
            rw [hval] at hb
            exact hb
          rw [utf8EncodeChar_of_ascii hc] at hmore
          have hlength := congrArg List.length hmore
          simp at hlength

/-! ## Runs of bytes -/

/-- The test of bytes takes all bytes of a character that the test of characters
takes, and not the first byte of any other. -/
def Agrees (p : UInt8 → Bool) (q : Char → Bool) : Prop :=
  ∀ c, if q c then ∀ b ∈ String.utf8EncodeChar c, p b = true
    else ∀ b ∈ (String.utf8EncodeChar c).head?, p b = false

/-- Tests agree if they agree on ASCII characters and give everything else
the same answer. -/
theorem Agrees.of_ascii {p : UInt8 → Bool} {q : Char → Bool} (answer : Bool)
    (hlow : ∀ n < 128, p (UInt8.ofNat n) = q (Char.ofNat n))
    (hp : ∀ b : UInt8, 128 ≤ b.toNat → p b = answer)
    (hq : ∀ c : Char, 128 ≤ c.toNat → q c = answer) : Agrees p q := by
  intro c
  rcases ascii_cases c with ⟨hc, hone⟩ | ⟨hc, hall⟩
  · have heq := hlow c.toNat hc
    rw [Char.ofNat_toNat] at heq
    rw [hone]
    cases hqc : q c with
    | true => simpa [hqc] using heq
    | false => simpa [hqc] using heq
  · rw [hq c hc]
    cases answer with
    | true =>
      rw [if_pos rfl]
      exact fun b hb => hp b (hall b hb)
    | false =>
      rw [if_neg Bool.false_ne_true]
      exact fun b hb => hp b (hall b (List.mem_of_mem_head? hb))

section Runs

variable {p : UInt8 → Bool} {q : Char → Bool}

theorem takeWhile_encode (h : Agrees p q) (cs : List Char) :
    (encode cs).takeWhile p = encode (cs.takeWhile q) := by
  induction cs with
  | nil => rfl
  | cons c cs ih =>
    have hc := h c
    rw [encode_cons, List.takeWhile_cons]
    split at hc
    next hq => rw [if_pos hq, List.takeWhile_append_of_pos hc, ih, encode_cons]
    next hq =>
      obtain ⟨first, more, hmore⟩ :=
        List.exists_cons_of_ne_nil (utf8EncodeChar_ne_nil c)
      rw [hmore] at hc ⊢
      rw [if_neg hq, List.cons_append,
        List.takeWhile_cons_of_neg (by simp [hc first rfl]), encode_nil]

theorem dropWhile_encode (h : Agrees p q) (cs : List Char) :
    (encode cs).dropWhile p = encode (cs.dropWhile q) := by
  have hbytes := List.takeWhile_append_dropWhile (p := p) (l := encode cs)
  have hchars : encode (cs.takeWhile q) ++ encode (cs.dropWhile q) = encode cs := by
    rw [← encode_append, List.takeWhile_append_dropWhile]
  rw [takeWhile_encode h] at hbytes
  exact List.append_cancel_left (hbytes.trans hchars.symm)

end Runs

/-! ## Positions -/

section Positions

variable {bytes rest : List UInt8} {i : Nat}

theorem drop_add (front : List UInt8) (h : bytes.drop i = front ++ rest) :
    bytes.drop (i + front.length) = rest := by
  rw [← List.drop_drop, h, List.drop_left]

theorem getElem?_of_drop {b : UInt8} (h : bytes.drop i = b :: rest) :
    bytes[i]? = some b := by
  rw [← List.head?_drop, h]
  rfl

theorem drop_of_getElem? {b : UInt8} (h : bytes[i]? = some b) :
    bytes.drop i = b :: bytes.drop (i + 1) := by
  obtain ⟨hlt, heq⟩ := List.getElem?_eq_some_iff.mp h
  rw [List.drop_eq_getElem_cons hlt, heq]

end Positions

end GoInventory.Text
