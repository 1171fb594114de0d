/-!
# The bytes of a text

Offsets, limits and output are all counted in bytes of the UTF-8 form. The
functions here work on lists of characters, where a text is taken apart by
pattern matching and put together by `++`.
-/

namespace GoInventory.Text

/-- The UTF-8 form of a list of characters. -/
def encode (cs : List Char) : List UInt8 :=
  cs.flatMap String.utf8EncodeChar

/-- The number of bytes in the UTF-8 form. -/
def byteLength (cs : List Char) : Nat :=
  cs.foldr (fun c n => c.utf8Size + n) 0

/-- The UTF-8 form of a string. -/
def bytes (s : String) : List UInt8 :=
  encode s.toList

/-- The text with this UTF-8 form, if the bytes are well formed. -/
def decode? (bs : List UInt8) : Option String :=
  String.fromUTF8? ⟨bs.toArray⟩

@[simp] theorem encode_nil : encode [] = [] := rfl

@[simp] theorem encode_append (xs ys : List Char) :
    encode (xs ++ ys) = encode xs ++ encode ys := by
  simp [encode]

@[simp] theorem byteLength_nil : byteLength [] = 0 := rfl

@[simp] theorem byteLength_cons (c : Char) (cs : List Char) :
    byteLength (c :: cs) = c.utf8Size + byteLength cs := rfl

@[simp] theorem byteLength_append (xs ys : List Char) :
    byteLength (xs ++ ys) = byteLength xs + byteLength ys := by
  induction xs with
  | nil => simp
  | cons c xs ih =>
    rw [List.cons_append, byteLength_cons, ih, byteLength_cons, Nat.add_assoc]

/-- The count is the length of the encoded form. -/
theorem length_encode (cs : List Char) : (encode cs).length = byteLength cs := by
  induction cs with
  | nil => rfl
  | cons c cs ih =>
    have h : encode (c :: cs) = String.utf8EncodeChar c ++ encode cs := by
      simp [encode]
    rw [h, List.length_append, ih, byteLength_cons, String.length_utf8EncodeChar]

end GoInventory.Text
