import GoInventory.Text.Bytes
import Mathlib.Data.String.Basic

/-!
# Slices of a text

Tokens and spans name parts of a source by byte offsets, while the lexer cuts
lists of characters. The bridge is `slice_eq_encode`: when a text is split into
three lists of characters, the bytes between the two offsets that the split
gives are the encoded middle part, and so is the text between them
(`extract_eq_ofList`). The offsets of such a split are character boundaries
(`isValid_byteLength`). No character but the line ends encodes to a line end
byte (`isLineEndByte_of_mem`), so a search for the first line end may be made in
the bytes or in the characters.
-/

namespace GoInventory.Text

/-- The bytes of the text from one offset up to another. -/
def slice (source : String) (start stop : Nat) : List UInt8 :=
  ((bytes source).take stop).drop start

/-- A line feed or a carriage return. -/
def isLineEndByte (b : UInt8) : Bool :=
  b == 10 || b == 13

/-- Dropping the bytes of a first part and cutting off those of a last one
leaves the middle. -/
theorem slice_eq_encode {source : String} {before middle after : List Char}
    {start stop : Nat} (hsource : source.toList = before ++ middle ++ after)
    (hstart : start = byteLength before) (hstop : stop = start + byteLength middle) :
    slice source start stop = encode middle := by
  have hlen : (encode (before ++ middle)).length = stop := by
    rw [length_encode, byteLength_append, hstop, hstart]
  unfold slice bytes
  rw [hsource, encode_append (before ++ middle) after, List.take_left' hlen,
    encode_append, List.drop_left' (by rw [length_encode, hstart])]

theorem byteLength_eq_utf8Len (cs : List Char) :
    byteLength cs = String.utf8Len cs := by
  induction cs with
  | nil => rfl
  | cons c cs ih => rw [byteLength_cons, String.utf8Len_cons, ih, Nat.add_comm]

/-- Only the empty text has no bytes. -/
theorem byteLength_eq_zero {cs : List Char} (h : byteLength cs = 0) : cs = [] := by
  rw [byteLength_eq_utf8Len] at h
  exact String.utf8Len_eq_zero.mp h

/-- An offset parts a text in one way only. -/
theorem append_inj_of_byteLength {a b c d : List Char} (h : a ++ b = c ++ d)
    (hlength : byteLength a = byteLength c) : a = c ∧ b = d := by
  rcases List.append_eq_append_iff.mp h with ⟨more, rfl, rfl⟩ | ⟨more, rfl, rfl⟩
  · rw [byteLength_append, Nat.left_eq_add] at hlength
    rw [byteLength_eq_zero hlength]
    simp
  · rw [byteLength_append, Nat.add_eq_left] at hlength
    rw [byteLength_eq_zero hlength]
    simp

/-- The offset behind a first part of a text is a character boundary. -/
theorem isValid_byteLength {source : String} {before behind : List Char}
    (h : source.toList = before ++ behind) :
    String.Pos.Raw.IsValid source ⟨byteLength before⟩ := by
  refine String.Pos.Raw.isValid_iff_exists_append.mpr ⟨.ofList before,
    .ofList behind, ?_, ?_⟩
  · rw [← String.ofList_append, ← h, String.ofList_toList]
  · rw [String.rawEndPos_ofList, byteLength_eq_utf8Len]

/-- The text between the offsets of a split is the middle part. -/
theorem extract_eq_ofList {source : String} {before middle behind : List Char}
    {start stop : Nat} (hsource : source.toList = before ++ middle ++ behind)
    (hstart : start = byteLength before) (hstop : stop = start + byteLength middle) :
    String.Pos.Raw.extract source ⟨start⟩ ⟨stop⟩ = .ofList middle := by
  have hsplit := String.extract_of_valid before middle behind
  rw [← hsource, String.ofList_toList, ← byteLength_eq_utf8Len,
    ← byteLength_eq_utf8Len] at hsplit
  rw [hstop, hstart]
  exact hsplit

/-- A character other than the two line ends has no line end byte in its
encoding: one byte encodes the character itself, and the bytes of a longer
encoding are all above the ASCII range. -/
theorem isLineEndByte_of_mem {c : Char} (hlf : c ≠ '\n') (hcr : c ≠ '\r') :
    ∀ b ∈ String.utf8EncodeChar c, isLineEndByte b = false := by
  have hne : ∀ n : Nat, n < 256 → n ≠ 10 → n ≠ 13 →
      isLineEndByte (UInt8.ofNat n) = false := by
    intro n hn h10 h13
    have h1 : UInt8.ofNat n ≠ 10 := by
      intro h
      have := congrArg UInt8.toNat h
      simp only [UInt8.toNat_ofNat', UInt8.reduceToNat] at this
      omega
    have h2 : UInt8.ofNat n ≠ 13 := by
      intro h
      have := congrArg UInt8.toNat h
      simp only [UInt8.toNat_ofNat', UInt8.reduceToNat] at this
      omega
    simp [isLineEndByte, h1, h2]
  have hv10 : c.val.toNat ≠ 10 := by
    intro h
    exact hlf (Char.ext (UInt32.toNat_inj.mp h))
  have hv13 : c.val.toNat ≠ 13 := by
    intro h
    exact hcr (Char.ext (UInt32.toNat_inj.mp h))
  intro b hb
  -- the cases are the lengths of an encoding, from one byte to four
  unfold String.utf8EncodeChar at hb
  simp only at hb
  split at hb
  · simp only [List.mem_singleton] at hb
    subst hb
    exact hne _ (by omega) hv10 hv13
  · split at hb
    · simp only [List.mem_cons, List.not_mem_nil, or_false] at hb
      rcases hb with rfl | rfl <;> exact hne _ (by omega) (by omega) (by omega)
    · split at hb
      · simp only [List.mem_cons, List.not_mem_nil, or_false] at hb
        rcases hb with rfl | rfl | rfl <;> exact hne _ (by omega)
          (by omega) (by omega)
      · simp only [List.mem_cons, List.not_mem_nil, or_false] at hb
        rcases hb with rfl | rfl | rfl | rfl <;> exact hne _ (by omega)
          (by omega) (by omega)

end GoInventory.Text
