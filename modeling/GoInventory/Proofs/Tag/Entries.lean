import GoInventory.Proofs.Tag.Quoted

/-!
# The grammar of tags

An entry is written as blanks, a key, a colon, and a body between quotes
(`RawEntry`), all of it in bytes. What is written at the head of a row of bytes
is one entry at most (`RawEntry.bytes_append_inj`): the blanks end at the key,
the key at the colon, and the body at its quote. So a row of bytes is cut into
entries in one way only, up to a rest that does not begin with another one
(`Decomposes.unique`).

The reader works on characters. It finds an entry exactly if one is written in
the bytes (`entry_of_splitEntry?`, `splitEntry?_of_entry`), so what it reads
from the whole tag are the entries of that one decomposition
(`decomposes_entriesWithin`).
-/

namespace GoInventory

/-- A byte of a key. -/
def isKeyByte (b : UInt8) : Bool :=
  0x20 < b && b != 0x3A && b != 0x22 && b != 0x7F

/-- An entry as it is written: blanks, a key, and a body that stands
between quotes. -/
@[ext] structure RawEntry where
  blanks : Nat
  key : List UInt8
  body : List UInt8
  key_ne_nil : key ≠ []
  key_bytes : ∀ b ∈ key, isKeyByte b = true
  body_quoted : QuotedBody 0x22 0x5C body

namespace RawEntry

/-- The value as it is written. -/
def quoted (e : RawEntry) : List UInt8 :=
  0x22 :: (e.body ++ [0x22])

def bytes (e : RawEntry) : List UInt8 :=
  List.replicate e.blanks 0x20 ++ (e.key ++ 0x3A :: e.quoted)

end RawEntry

/-- The bytes are the entries, one after the other, and a rest that does not
begin with an entry. -/
structure Decomposes (raw : List UInt8) (entries : List RawEntry)
  (rest : List UInt8) : Prop where
  eq_append : raw = entries.flatMap RawEntry.bytes ++ rest
  stops : ∀ (e : RawEntry) (more : List UInt8), rest ≠ e.bytes ++ more

/-! ## One entry -/

section Runs

variable {α : Type} {p : α → Bool} {run rest : List α} {a : α}

/-- A run ends before the first symbol that does not belong to it. -/
theorem takeWhile_append_cons (hrun : ∀ x ∈ run, p x = true) (ha : p a = false) :
    (run ++ a :: rest).takeWhile p = run := by
  rw [List.takeWhile_append_of_pos hrun, List.takeWhile_cons_of_neg (by simp [ha]),
    List.append_nil]

theorem dropWhile_append_cons (hrun : ∀ x ∈ run, p x = true) (ha : p a = false) :
    (run ++ a :: rest).dropWhile p = a :: rest := by
  rw [List.dropWhile_append_of_pos hrun, List.dropWhile_cons_of_neg (by simp [ha])]

theorem drop_length_takeWhile (l : List α) :
    l.drop (l.takeWhile p).length = l.dropWhile p := by
  have hsplit := List.takeWhile_append_dropWhile (p := p) (l := l)
  calc l.drop (l.takeWhile p).length
      = (l.takeWhile p ++ l.dropWhile p).drop (l.takeWhile p).length := by rw [hsplit]
    _ = l.dropWhile p := List.drop_left

end Runs

namespace RawEntry

variable (e : RawEntry) (more : List UInt8)

theorem bytes_append :
    e.bytes ++ more = List.replicate e.blanks 0x20
      ++ (e.key ++ 0x3A :: (e.quoted ++ more)) := by
  simp [bytes]

/-- The first byte behind the blanks is one of the key, hence no blank. -/
theorem key_eq_cons : ∃ b key, e.key = b :: key ∧ (b == 0x20) = false := by
  obtain ⟨b, key, hkey⟩ := List.exists_cons_of_ne_nil e.key_ne_nil
  have hb := e.key_bytes b (by rw [hkey]; exact List.mem_cons_self)
  refine ⟨b, key, hkey, beq_false_of_ne ?_⟩
  rintro rfl
  exact absurd hb (by decide)

theorem takeWhile_blank :
    (e.bytes ++ more).takeWhile (· == 0x20) = List.replicate e.blanks 0x20 := by
  obtain ⟨b, key, hkey, hb⟩ := e.key_eq_cons
  rw [bytes_append, hkey]
  exact takeWhile_append_cons (by simp) hb

theorem dropWhile_blank :
    (e.bytes ++ more).dropWhile (· == 0x20)
      = e.key ++ 0x3A :: (e.quoted ++ more) := by
  obtain ⟨b, key, hkey, hb⟩ := e.key_eq_cons
  rw [bytes_append, hkey]
  exact dropWhile_append_cons (by simp) hb

theorem takeWhile_isKeyByte : (e.key ++ 0x3A :: more).takeWhile isKeyByte = e.key :=
  takeWhile_append_cons e.key_bytes rfl

theorem dropWhile_isKeyByte :
    (e.key ++ 0x3A :: more).dropWhile isKeyByte = 0x3A :: more :=
  dropWhile_append_cons e.key_bytes rfl

/-- **One entry at most is written at the head of a row of bytes.** -/
theorem bytes_append_inj {e e' : RawEntry} {more more' : List UInt8}
    (h : e.bytes ++ more = e'.bytes ++ more') : e = e' ∧ more = more' := by
  -- the parts are cut off both rows in the same way, from the left to the right
  have hblanks := congrArg (List.takeWhile (· == 0x20)) h
  rw [takeWhile_blank, takeWhile_blank, List.replicate_inj] at hblanks
  have htext := congrArg (List.dropWhile (· == 0x20)) h
  rw [dropWhile_blank, dropWhile_blank] at htext
  have hkey := congrArg (List.takeWhile isKeyByte) htext
  rw [takeWhile_isKeyByte, takeWhile_isKeyByte] at hkey
  have hquoted := congrArg (List.dropWhile isKeyByte) htext
  rw [dropWhile_isKeyByte, dropWhile_isKeyByte] at hquoted
  have hbody : e.body ++ 0x22 :: more = e'.body ++ 0x22 :: more' := by
    simpa [quoted] using hquoted
  obtain ⟨hbody, hmore⟩ := e.body_quoted.append_inj (by decide) e'.body_quoted hbody
  exact ⟨RawEntry.ext hblanks.1 hkey hbody, hmore⟩

end RawEntry

/-! ## All entries -/

namespace Decomposes

variable {raw rest rest' : List UInt8} {entries entries' : List RawEntry}

theorem cons (e : RawEntry) (h : Decomposes raw entries rest) :
    Decomposes (e.bytes ++ raw) (e :: entries) rest := by
  refine ⟨?_, h.stops⟩
  rw [List.flatMap_cons, List.append_assoc, ← h.eq_append]

/-- **Bytes are cut into entries in one way only.** -/
theorem unique (h : Decomposes raw entries rest) (h' : Decomposes raw entries' rest') :
    entries = entries' ∧ rest = rest' := by
  induction entries generalizing raw entries' with
  | nil =>
    have hrest : rest = entries'.flatMap RawEntry.bytes ++ rest' :=
      h.eq_append.symm.trans h'.eq_append
    cases entries' with
    | nil => exact ⟨rfl, hrest⟩
    | cons e' entries' =>
      rw [List.flatMap_cons, List.append_assoc] at hrest
      exact absurd hrest (h.stops e' _)
  | cons e entries ih =>
    have heq := h.eq_append.symm.trans h'.eq_append
    rw [List.flatMap_cons, List.append_assoc] at heq
    cases entries' with
    | nil => exact absurd heq.symm (h'.stops e _)
    | cons e' entries' =>
      rw [List.flatMap_cons, List.append_assoc] at heq
      obtain ⟨rfl, hmore⟩ := RawEntry.bytes_append_inj heq
      obtain ⟨rfl, rfl⟩ := ih ⟨rfl, h.stops⟩ ⟨hmore, h'.stops⟩
      exact ⟨rfl, rfl⟩

end Decomposes

/-! ## What is read -/

namespace StructTag

theorem agrees_blank : Text.Agrees (· == 0x20) (· == ' ') := by
  refine .of_ascii false (by decide) ?_ ?_
  · intro b hb
    refine beq_false_of_ne ?_
    rintro rfl
    exact absurd hb (by decide)
  · intro c hc
    refine beq_false_of_ne ?_
    rintro rfl
    exact absurd hc (by decide)

/-- No key ends inside a character above the ASCII range. -/
theorem agrees_key : Text.Agrees isKeyByte isKeyChar := by
  refine .of_ascii true (by decide) ?_ ?_
  · intro b hb
    have hlt : (0x20 : UInt8) < b :=
      UInt8.lt_iff_toNat_lt.mpr (Nat.lt_of_lt_of_le (by decide) hb)
    have hne : ∀ d : UInt8, d.toNat < 128 → b ≠ d := by
      rintro d hd rfl
      omega
    simp [isKeyByte, hlt, hne 0x3A (by decide), hne 0x22 (by decide),
      hne 0x7F (by decide)]
  · intro c hc
    have hne : ∀ d : Char, d.toNat < 128 → c ≠ d := by
      rintro d hd rfl
      omega
    have hlt : 0x20 < c.toNat := by omega
    have hdelete : c.toNat ≠ 0x7F := by omega
    simp [isKeyChar, hlt, hdelete, hne ':' (by decide), hne '\x22' (by decide)]

/-- What is read at the head of a tag is written there as an entry. -/
theorem entry_of_splitEntry? {cs key quoted rest : List Char}
    (h : splitEntry? cs = some ((key, quoted), rest)) :
    ∃ e : RawEntry, cs.takeWhile (· == ' ') = List.replicate e.blanks ' ' ∧
      cs.dropWhile (· == ' ') = key ++ ':' :: (quoted ++ rest) ∧
      e.key = Text.encode key ∧ e.quoted = Text.encode quoted := by
  unfold splitEntry? at h
  simp only at h
  generalize htext : cs.dropWhile (· == ' ') = text at h
  split at h
  next first more behind hkey hdrop =>
    obtain ⟨⟨body, rest'⟩, hsplit, heq⟩ := Option.map_eq_some_iff.mp h
    cases heq
    obtain ⟨hbody, rfl⟩ := splitValue?_eq_some_iff.mp hsplit
    have hbytes : ∀ b ∈ Text.encode (text.takeWhile isKeyChar),
        isKeyByte b = true := by
      rw [← Text.takeWhile_encode agrees_key]
      exact List.all_eq_true.mp List.all_takeWhile
    have hne : Text.encode (text.takeWhile isKeyChar) ≠ [] := by
      rw [hkey, Text.encode_cons]
      exact List.append_ne_nil_of_left_ne_nil (Text.utf8EncodeChar_ne_nil first) _
    refine ⟨⟨(cs.takeWhile (· == ' ')).length, _, Text.encode body, hne, hbytes,
      (quotedBody_encode body).mpr hbody⟩,
      ?_, ?_, rfl, ?_⟩
    · refine List.eq_replicate_iff.mpr ⟨rfl, fun c hc => ?_⟩
      exact eq_of_beq (List.all_eq_true.mp List.all_takeWhile c hc)
    · have hquoted : '\x22' :: body ++ ['\x22'] ++ rest'
          = '\x22' :: (body ++ '\x22' :: rest') := by simp
      show text = text.takeWhile isKeyChar ++ ':'
        :: ('\x22' :: body ++ ['\x22'] ++ rest')
      rw [hquoted, ← hdrop, drop_length_takeWhile, List.takeWhile_append_dropWhile]
    · rw [List.cons_append, Text.encode_cons, Text.encode_append]
      rfl
  next => cases h

/-- An entry that is written at the head of a tag is read. -/
theorem splitEntry?_of_entry {cs : List Char} {e : RawEntry} {more : List UInt8}
    (h : Text.encode cs = e.bytes ++ more) : splitEntry? cs ≠ none := by
  have htext : Text.encode (cs.dropWhile (· == ' '))
      = e.key ++ 0x3A :: (e.quoted ++ more) := by
    rw [← Text.dropWhile_encode agrees_blank, h, e.dropWhile_blank]
  generalize htrim : cs.dropWhile (· == ' ') = text at htext
  have hkey : Text.encode (text.takeWhile isKeyChar) = e.key := by
    rw [← Text.takeWhile_encode agrees_key, htext, e.takeWhile_isKeyByte]
  have hdrop : Text.encode (text.drop (text.takeWhile isKeyChar).length)
      = [0x3A, 0x22] ++ (e.body ++ 0x22 :: more) := by
    rw [drop_length_takeWhile, ← Text.dropWhile_encode agrees_key, htext,
      e.dropWhile_isKeyByte]
    simp [RawEntry.quoted]
  -- the colon and the two quotes are ASCII bytes, hence characters
  obtain ⟨behind, hbehind, hvalue⟩ := Text.encode_eq_append (by simp) hdrop
  have hbehind : text.drop (text.takeWhile isKeyChar).length
      = ':' :: '\x22' :: behind := hbehind
  obtain ⟨body, rest, hsplit, hbody, -⟩ :=
    Text.encode_eq_append_cons (by decide) _ _ hvalue
  have hquoted : QuotedBody '\x22' '\\' body := by
    rw [← quotedBody_encode, hbody]
    exact e.body_quoted
  have hsplit : splitValue? behind = some (body, rest) :=
    splitValue?_eq_some_iff.mpr ⟨hquoted, hsplit⟩
  have hne : text.takeWhile isKeyChar ≠ [] := by
    intro hnil
    rw [hnil, Text.encode_nil] at hkey
    exact e.key_ne_nil hkey.symm
  obtain ⟨first, key, hfirst⟩ := List.exists_cons_of_ne_nil hne
  unfold splitEntry?
  simp only [htrim]
  split
  next first' key' behind _ hdrop' =>
    rw [hbehind] at hdrop'
    cases hdrop'
    rw [hsplit]
    exact Option.some_ne_none _
  next hother => exact (hother first key _ hfirst hbehind).elim

/-- The entry that is written, and what is read of it: the key, and the value
still in quotes. -/
def Written (e : RawEntry) (entry : List Char × List Char) : Prop :=
  e.key = Text.encode entry.1 ∧ e.quoted = Text.encode entry.2

theorem encode_of_splitEntry? {cs key quoted rest : List Char}
    (h : splitEntry? cs = some ((key, quoted), rest)) :
    ∃ e : RawEntry, Text.encode cs = e.bytes ++ Text.encode rest ∧
      Written e (key, quoted) := by
  obtain ⟨e, htake, hdrop, hkey, hquoted⟩ := entry_of_splitEntry? h
  have hblanks : ∀ n, Text.encode (List.replicate n ' ') = List.replicate n 0x20 := by
    intro n
    induction n with
    | zero => rfl
    | succ n ih =>
      rw [List.replicate_succ, Text.encode_cons, ih]
      rfl
  refine ⟨e, ?_, hkey, hquoted⟩
  rw [← List.takeWhile_append_dropWhile (p := (· == ' ')) (l := cs), htake, hdrop,
    Text.encode_append, hblanks,
    Text.encode_append, ← hkey, Text.encode_cons, Text.encode_append, ← hquoted,
      RawEntry.bytes_append]
  rfl

/-- Each entry takes a character at least. -/
theorem length_of_splitEntry? {cs : List Char} {entry : List Char × List Char}
    {rest : List Char} (h : splitEntry? cs = some (entry, rest)) :
    rest.length < cs.length := by
  obtain ⟨e, -, hdrop, -⟩ := entry_of_splitEntry? h
  have hlength := congrArg List.length hdrop
  have hle := (List.dropWhile_sublist (l := cs) (· == ' ')).length_le
  simp only [List.length_append, List.length_cons] at hlength
  omega

/-- **The entries that are read are those of the decomposition.** -/
theorem decomposes_entriesWithin :
    ∀ (bound : Nat) (cs : List Char), cs.length ≤ bound →
    ∃ entries rest, Decomposes (Text.encode cs) entries rest ∧
      List.Forall₂ Written entries (entriesWithin bound cs) := by
  intro bound
  induction bound with
  | zero =>
    intro cs hle
    rw [List.length_eq_zero_iff.mp (Nat.le_zero.mp hle)]
    refine ⟨[], [], ⟨rfl, fun e more h => ?_⟩, .nil⟩
    -- an entry in the empty text would be read, and nothing is
    exact absurd rfl
      (splitEntry?_of_entry (show Text.encode [] = e.bytes ++ more from h))
  | succ bound ih =>
    intro cs hle
    unfold entriesWithin
    split
    next hnone =>
      exact ⟨[], Text.encode cs,
        ⟨rfl, fun e more h => splitEntry?_of_entry h hnone⟩, .nil⟩
    next entry rest hsome =>
      have hlt := length_of_splitEntry? hsome
      obtain ⟨entries, behind, hentries, hwritten⟩ := ih rest (by omega)
      obtain ⟨e, hencode, he⟩ := encode_of_splitEntry? hsome
      exact ⟨e :: entries, behind, hencode ▸ hentries.cons e, .cons he hwritten⟩

end StructTag

end GoInventory
