import GoInventory.Proofs.Tag.Entries
import GoInventory.Proofs.Text.Slice
import Mathlib.Data.List.DropRight
import Mathlib.Data.List.Forall2

/-!
# Reading a tag by offsets

A tag can also be read by offsets into its bytes: the key ends at the first byte
that cannot stand in one, and the value at the first quote, where a backslash
skips the byte behind it, which may be the first of a longer character
(`TagScan.closing?`). The key, the value and the rest are then cut out of the
text between offsets, which fails if one of them lies inside a character
(`TagScan.slice?`).

None of them does: wherever an entry is found, the offsets are those of its
parts (`offsets?_of_splitEntry?`), so the reading goes through the whole tag and
yields the entries that are read from its characters (`yields_entriesWithin`).
With the one decomposition of the tag this says all that a tag is read to
(`parse_decomposed`).
-/

namespace GoInventory

namespace TagScan

/-- The offset of the first quote from an offset on; a backslash skips the
byte behind it. -/
def closing? (bytes : List UInt8) (i : Nat) : Option Nat :=
  match h : bytes[i]? with
  | none => none
  | some b =>
    if b = 0x22 then some i
    else if b = 0x5C then closing? bytes (i + 2)
    else closing? bytes (i + 1)
termination_by bytes.length - i
decreasing_by
  all_goals
    have hlt := (List.getElem?_eq_some_iff.mp h).1
    omega

/-- The length of the key at the head of the bytes, and the offset of the quote
that closes its value. -/
def offsets? (bytes : List UInt8) : Option (Nat × Nat) :=
  let length := bytes.findIdx fun b => !isKeyByte b
  if length = 0 ∨ bytes[length]? ≠ some 0x3A ∨
    bytes[length + 1]? ≠ some 0x22 then none
  else (closing? bytes (length + 2)).map (length, ·)

/-- The text between two offsets. There is none if one of them is not between
two characters. -/
def slice? (text : String) (start stop : Nat) : Option String :=
  if start ≤ stop ∧ String.Pos.Raw.IsValid text ⟨start⟩ ∧
    String.Pos.Raw.IsValid text ⟨stop⟩ then
    some (String.Pos.Raw.extract text ⟨start⟩ ⟨stop⟩)
  else none

/-- The text without the blanks at its head. -/
def trimmed (text : String) : String :=
  String.ofList (text.toList.dropWhile (· == ' '))

/-- Reading the text by offsets takes no slice that is missing, and yields these
keys and values in quotes. -/
inductive Yields : String → List (String × String) → Prop
  | done {text : String} : offsets? (Text.bytes (trimmed text)) = none →
      Yields text []
  | entry {text key quoted rest : String} {length close : Nat}
      {pairs : List (String × String)} :
    offsets? (Text.bytes (trimmed text)) = some (length, close) →
    slice? (trimmed text) (close + 1) (Text.bytes (trimmed text)).length = some rest →
    slice? (trimmed text) 0 length = some key →
    slice? (trimmed text) (length + 1) (close + 1) = some quoted →
    Yields rest pairs → Yields text ((key, quoted) :: pairs)

/-! ## Offsets of an entry -/

/-- One turn of the scan. -/
theorem closing?_of_drop {bytes rest : List UInt8} {b : UInt8} {i : Nat}
    (h : bytes.drop i = b :: rest) :
    closing? bytes i =
      if b = 0x22 then some i else if b = 0x5C then closing? bytes (i + 2)
        else closing? bytes (i + 1) := by
  have hget := Text.getElem?_of_drop h
  rw [closing?]
  split
  next hnone =>
    rw [hget] at hnone
    cases hnone
  next hsome =>
    rw [hget] at hsome
    cases hsome
    rfl

/-- The scan comes to the quote that ends a body. -/
theorem closing?_of_quotedBody {bytes body more : List UInt8}
    (hbody : QuotedBody 0x22 0x5C body) :
    ∀ {i : Nat}, bytes.drop i = body ++ 0x22 :: more →
      closing? bytes i = some (i + body.length) := by
  induction hbody with
  | nil =>
    intro i h
    rw [closing?_of_drop h, if_pos rfl]
    rfl
  | @single b body hquote hslash _ ih =>
    intro i h
    have hnext : bytes.drop (i + 1) = body ++ 0x22 :: more := Text.drop_add [b] h
    rw [closing?_of_drop h, if_neg hquote, if_neg hslash, ih hnext, List.length_cons,
      Nat.add_right_comm, Nat.add_assoc]
  | @pair b body _ ih =>
    intro i h
    have hnext : bytes.drop (i + 2) = body ++ 0x22 :: more :=
      Text.drop_add [0x5C, b] h
    rw [closing?_of_drop h, if_neg (by decide), if_pos rfl, ih hnext,
      List.length_cons, List.length_cons, Nat.add_right_comm, Nat.add_assoc]

/-- What the scan goes over is a body. -/
theorem quotedBody_of_closing? {bytes : List UInt8} {i j : Nat}
    (h : closing? bytes i = some j) :
    ∃ body more, QuotedBody 0x22 0x5C body ∧ bytes.drop i = body ++ 0x22 :: more := by
  fun_induction closing? bytes i with
  | case1 => cases h
  | case2 i hb => exact ⟨[], _, .nil, Text.drop_of_getElem? hb⟩
  | case3 i hb _ ih =>
    obtain ⟨body, more, hbody, hdrop⟩ := ih h
    -- the byte that is skipped is there, since the body behind it is
    have hlt : i + 1 < bytes.length := by
      have hlength := congrArg List.length hdrop
      rw [List.length_drop, List.length_append, List.length_cons] at hlength
      omega
    have hskipped := List.drop_eq_getElem_cons hlt
    refine ⟨0x5C :: bytes[i + 1] :: body, more, .pair hbody, ?_⟩
    rw [Text.drop_of_getElem? hb, hskipped, hdrop]
    rfl
  | case4 i b hb hquote hslash ih =>
    obtain ⟨body, more, hbody, hdrop⟩ := ih h
    refine ⟨b :: body, more, .single hquote hslash hbody, ?_⟩
    rw [Text.drop_of_getElem? hb, hdrop]
    rfl

theorem findIdx_isKeyByte (bytes : List UInt8) :
    bytes.findIdx (fun b => !isKeyByte b) = (bytes.takeWhile isKeyByte).length := by
  rw [List.takeWhile_eq_take_findIdx_not, List.length_take,
    Nat.min_eq_left List.findIdx_le_length]

/-- The offsets of an entry are found. -/
theorem offsets?_of_entry (e : RawEntry) (more : List UInt8) :
    offsets? (e.key ++ 0x3A :: (e.quoted ++ more))
      = some (e.key.length, e.key.length + 2 + e.body.length) := by
  generalize hbytes : e.key ++ 0x3A :: (e.quoted ++ more) = bytes
  have hlength : bytes.findIdx (fun b => !isKeyByte b) = e.key.length := by
    rw [findIdx_isKeyByte, ← hbytes, e.takeWhile_isKeyByte]
  have hpos : e.key.length ≠ 0 := fun h => e.key_ne_nil (List.length_eq_zero_iff.mp h)
  have hcolon : bytes.drop e.key.length
      = 0x3A :: 0x22 :: (e.body ++ 0x22 :: more) := by
    rw [← hbytes, List.drop_left]
    simp [RawEntry.quoted]
  have hopen : bytes.drop (e.key.length + 1) = 0x22 :: (e.body ++ 0x22 :: more) :=
    Text.drop_add [0x3A] hcolon
  have hvalue : bytes.drop (e.key.length + 2) = e.body ++ 0x22 :: more :=
    Text.drop_add [0x3A, 0x22] hcolon
  unfold offsets?
  simp only
  rw [hlength, if_neg
    (by simp [hpos, Text.getElem?_of_drop hcolon, Text.getElem?_of_drop hopen]),
    closing?_of_quotedBody e.body_quoted hvalue, Option.map_some]

/-- Where offsets are found, an entry is written. -/
theorem entry_of_offsets? {bytes : List UInt8} {offsets : Nat × Nat}
    (h : offsets? bytes = some offsets) :
    ∃ (e : RawEntry) (more : List UInt8), bytes = e.bytes ++ more := by
  unfold offsets? at h
  simp only at h
  rw [findIdx_isKeyByte] at h
  split at h
  next => cases h
  next hentry =>
    simp only [not_or, not_not] at hentry
    obtain ⟨hpos, hcolon, hopen⟩ := hentry
    obtain ⟨close, hclose, -⟩ := Option.map_eq_some_iff.mp h
    obtain ⟨body, more, hbody, hdrop⟩ := quotedBody_of_closing? hclose
    refine ⟨⟨0, bytes.takeWhile isKeyByte, body, ?_,
      List.all_eq_true.mp List.all_takeWhile, hbody⟩, more, ?_⟩
    · exact fun hnil => hpos (List.length_eq_zero_iff.mpr hnil)
    · rw [RawEntry.bytes_append]
      calc bytes
          = bytes.takeWhile isKeyByte
            ++ bytes.drop (bytes.takeWhile isKeyByte).length := by
            rw [drop_length_takeWhile, List.takeWhile_append_dropWhile]
        _ = bytes.takeWhile isKeyByte ++ 0x3A :: 0x22 :: (body ++ 0x22 :: more) := by
            rw [Text.drop_of_getElem? hcolon, Text.drop_of_getElem? hopen, hdrop]
        _ = _ := by simp [RawEntry.quoted]

/-! ## Slices -/

/-- The slice between the offsets of a split is its middle part. -/
theorem slice?_of_split {text : String} {middle : List Char} {start stop : Nat}
    (before behind : List Char) (h : text.toList = before ++ middle ++ behind)
    (hstart : start = Text.byteLength before)
    (hstop : stop = start + Text.byteLength middle) :
    slice? text start stop = some (.ofList middle) := by
  have hvalid : String.Pos.Raw.IsValid text ⟨start⟩ := by
    rw [hstart]
    exact Text.isValid_byteLength (by rw [h, List.append_assoc])
  have hvalid' : String.Pos.Raw.IsValid text ⟨stop⟩ := by
    rw [hstop, hstart, ← Text.byteLength_append]
    exact Text.isValid_byteLength h
  unfold slice?
  rw [if_pos ⟨by omega, hvalid, hvalid'⟩, Text.extract_eq_ofList h hstart hstop]

/-- No offsets are found where no entry is read. -/
theorem offsets?_of_splitEntry?_none {cs : List Char}
    (h : StructTag.splitEntry? cs = none) :
    offsets? (Text.encode (cs.dropWhile (· == ' '))) = none := by
  cases hoffsets : offsets? (Text.encode (cs.dropWhile (· == ' '))) with
  | none => rfl
  | some offsets =>
    obtain ⟨e, more, hbytes⟩ := entry_of_offsets? hoffsets
    -- the entry is written without blanks here, and blanks before it change nothing
    have hsame : StructTag.splitEntry? (cs.dropWhile (· == ' '))
        = StructTag.splitEntry? cs := by
      unfold StructTag.splitEntry?
      rw [List.dropWhile_idempotent]
    exact absurd (hsame.trans h) (StructTag.splitEntry?_of_entry hbytes)

/-- The offsets of an entry that is read are those of its parts. -/
theorem offsets?_of_splitEntry? {cs key quoted rest : List Char}
    (h : StructTag.splitEntry? cs = some ((key, quoted), rest)) :
    offsets? (Text.encode (cs.dropWhile (· == ' '))) =
      some (Text.byteLength key, Text.byteLength key + Text.byteLength quoted) := by
  obtain ⟨e, -, hdrop, hkey, hquoted⟩ := StructTag.entry_of_splitEntry? h
  have hlength : e.key.length = Text.byteLength key := by
    rw [hkey, Text.length_encode]
  have hclose : e.body.length + 2 = Text.byteLength quoted := by
    rw [← Text.length_encode, ← hquoted, RawEntry.quoted, List.length_cons,
      List.length_append]
    rfl
  have hbytes : Text.encode (cs.dropWhile (· == ' '))
      = e.key ++ 0x3A :: (e.quoted ++ Text.encode rest) := by
    rw [hdrop, Text.encode_append, ← hkey, Text.encode_cons,
      Text.encode_append, ← hquoted]
    rfl
  rw [hbytes, offsets?_of_entry, hlength, ← hclose, Nat.add_assoc, Nat.add_comm 2]

/-- **No slice is taken inside a character.** Reading by offsets yields the
entries that are read from the characters. -/
theorem yields_entriesWithin : ∀ (bound : Nat) (cs : List Char), cs.length ≤ bound →
    Yields (.ofList cs) ((StructTag.entriesWithin bound cs).map
      fun entry => (.ofList entry.1, .ofList entry.2)) := by
  intro bound
  induction bound with
  | zero =>
    intro cs hle
    rw [List.length_eq_zero_iff.mp (Nat.le_zero.mp hle)]
    exact .done rfl
  | succ bound ih =>
    intro cs hle
    have hbytes : Text.bytes (trimmed (.ofList cs))
        = Text.encode (cs.dropWhile (· == ' ')) := by
      simp [Text.bytes, trimmed]
    unfold StructTag.entriesWithin
    split
    next hnone =>
      refine .done ?_
      rw [hbytes]
      exact offsets?_of_splitEntry?_none hnone
    next entry rest hsome =>
      have hlt := StructTag.length_of_splitEntry? hsome
      obtain ⟨-, -, hdrop, -⟩ := StructTag.entry_of_splitEntry? hsome
      -- the four parts of the text at which the offsets lie
      have htext : (trimmed (.ofList cs)).toList
          = entry.1 ++ ([':'] ++ (entry.2 ++ rest)) := by
        simp [trimmed, hdrop]
      have hlength : (Text.bytes (trimmed (.ofList cs))).length
          = Text.byteLength entry.1 + Text.byteLength entry.2 + 1
            + Text.byteLength rest := by
        rw [Text.bytes, Text.length_encode, htext]
        simp only [Text.byteLength_append, Text.byteLength_cons, Text.byteLength_nil]
        have hcolon : ':'.utf8Size = 1 := rfl
        omega
      have hcolon : Text.byteLength [':'] = 1 := rfl
      refine .entry (hbytes ▸ offsets?_of_splitEntry? hsome) ?_ ?_ ?_
        (ih rest (by omega))
      · refine slice?_of_split (entry.1 ++ [':'] ++ entry.2) [] ?_ ?_ hlength
        · simp [htext]
        · simp only [Text.byteLength_append, hcolon]
          omega
      · refine slice?_of_split [] ([':'] ++ (entry.2 ++ rest)) ?_ rfl
          (Nat.zero_add _).symm
        simp [htext]
      · refine slice?_of_split (entry.1 ++ [':']) rest ?_ ?_ ?_
        · simp [htext]
        · simp only [Text.byteLength_append, hcolon]
        · omega

end TagScan

namespace StructTag

/-- The entry that is written, and the one that it is read to. -/
def Reads (e : RawEntry) (entry : TagEntry) : Prop :=
  Text.bytes entry.key = e.key ∧
    ∃ literal : String, Text.bytes literal = e.quoted ∧
      entry.value? = EscapedText.unquote? literal.toList

/-- The value of the leftmost entry with this key; none if that entry has none,
or if there is no such entry. -/
def LeftmostValue (entries : List TagEntry) (key : String) (value? : Option String) :
    Prop :=
  (∃ before entry behind, entries = before ++ entry :: behind ∧
    (∀ other ∈ before, other.key ≠ key) ∧
    entry.key = key ∧ entry.value? = value?) ∨
  (∀ entry ∈ entries, entry.key ≠ key) ∧ value? = none

theorem get?_leftmost (tag : StructTag) (key : String) :
    LeftmostValue tag.entries key (tag.get? key) := by
  unfold get?
  cases hfind : tag.entries.find? (·.key == key) with
  | none =>
    refine Or.inr ⟨fun entry hentry hkey => ?_, rfl⟩
    exact List.find?_eq_none.mp hfind entry hentry (beq_iff_eq.mpr hkey)
  | some entry =>
    obtain ⟨hkey, before, behind, hsplit, hbefore⟩ :=
      List.find?_eq_some_iff_append.mp hfind
    refine Or.inl ⟨before, entry, behind, hsplit,
      fun other hother => ?_, eq_of_beq hkey, rfl⟩
    simpa using hbefore other hother

theorem toList_eq (tag : StructTag) :
    tag.toList.map (fun pair => ⟨pair.1, some pair.2⟩)
      = tag.entries.filter (·.value?.isSome) := by
  unfold toList
  induction tag.entries with
  | nil => rfl
  | cons entry entries ih =>
    obtain ⟨key, value?⟩ := entry
    cases value? with
    | none => simpa using ih
    | some value => simpa using ih

/-- **A tag is read to the entries of its one decomposition.** A key is looked
up in the leftmost entry that has it, only the entries with a value are listed
and counted, and reading by offsets comes to the same entries without a slice
inside a character. -/
theorem parse_decomposed (raw : String) :
    ∃ (entries : List RawEntry) (rest : List UInt8),
    Decomposes (Text.bytes raw) entries rest ∧
    (∀ entries' rest', Decomposes (Text.bytes raw) entries' rest' →
      entries' = entries ∧ rest' = rest) ∧
    List.Forall₂ Reads entries (parse raw).entries ∧
    (∀ key, LeftmostValue (parse raw).entries key ((parse raw).get? key) ∧
      lookup? raw key = (parse raw).get? key) ∧
    (parse raw).toList.map (fun pair => ⟨pair.1, some pair.2⟩)
      = (parse raw).entries.filter (·.value?.isSome) ∧
    (parse raw).size = (parse raw).entries.countP (·.value?.isSome) ∧
    ((parse raw).isEmpty = true ↔ ∀ entry ∈ (parse raw).entries,
      entry.value? = none) ∧
    ∃ pairs, TagScan.Yields raw pairs ∧
      (parse raw).entries
        = pairs.map fun pair => ⟨pair.1, EscapedText.unquote? pair.2.toList⟩ := by
  have hlength : raw.toList.length ≤ raw.length := Nat.le_of_eq String.length_toList
  obtain ⟨entries, rest, hdecomposes, hwritten⟩ :=
    decomposes_entriesWithin raw.length raw.toList hlength
  have hyields := TagScan.yields_entriesWithin raw.length raw.toList hlength
  rw [String.ofList_toList] at hyields
  refine ⟨entries, rest, hdecomposes, fun _ _ h => h.unique hdecomposes, ?_,
    fun key => ⟨get?_leftmost _ key, rfl⟩,
    toList_eq _, ?_, ?_, _, hyields, ?_⟩
  · refine List.forall₂_map_right_iff.mpr (hwritten.imp fun e entry h => ?_)
    have hkey : Text.bytes (.ofList entry.1) = e.key := by
      rw [Text.bytes, String.toList_ofList, h.1]
    have hquoted : Text.bytes (.ofList entry.2) = e.quoted := by
      rw [Text.bytes, String.toList_ofList, h.2]
    exact ⟨hkey, .ofList entry.2, hquoted, by rw [String.toList_ofList]⟩
  · rw [List.countP_eq_length_filter, ← toList_eq, List.length_map]
    rfl
  · rw [isEmpty, List.isEmpty_iff, ← List.map_eq_nil_iff, toList_eq,
      List.filter_eq_nil_iff]
    simp
  · simp [parse]

end StructTag

end GoInventory
