import GoInventory.Proofs.Token.Tiling

/-!
# Numbers

A number is cut from a text and then classified. Here both steps are compared
with what they are meant to do.

What is cut is the longest run of number characters, where a sign counts if it
stands right behind a letter that opens an exponent (`IsRun`,
`longestRun_munch`).

What is classified is compared with a grammar (`Form`): digits with at most one
point, and an exponent. The grammar knows nothing of underscores, which are
taken out first. The classification reads over them where it meets them, so the
two could differ on a sign behind an underscore. In a run there is none
(`SignsAttached`), and that is the only place where the two steps depend on each
other (`kindFrom_of_form`).
-/

namespace GoInventory

namespace Number

/-! ## Runs -/

/-- A number starts the text: a digit, or a point with a digit behind it. -/
def Starts (text : List Char) : Prop :=
  ∃ c rest, text = c :: rest ∧
    (c.isDigit = true ∨ (c = '.' ∧ ∃ d ∈ rest.head?, d.isDigit = true))

/-- Characters of numbers only, where a sign has to stand right behind a letter
that takes one. -/
def IsRun (hex : Bool) (run : List Char) : Prop :=
  ∀ before c behind, run = before ++ c :: behind →
    isPart c = true ∨
      (isSign c = true ∧ ∃ e ∈ before.getLast?, takesSign hex e = true)

/-- The text starts with this run, and with no longer one. -/
structure LongestRun (text run : List Char) : Prop where
  leads : run <+: text
  isRun : IsRun (startsHex text) run
  longest : ∀ other, other <+: text → IsRun (startsHex text) other →
    other.length ≤ run.length

/-- A sign is no character of a number by itself. -/
theorem isPart_of_isSign {c : Char} (h : isSign c = true) : isPart c = false := by
  simp only [isSign, Bool.or_eq_true, beq_iff_eq] at h
  rcases h with rfl | rfl <;> rfl

/-- A sign does not take another one. -/
theorem takesSign_of_isSign {hex : Bool} {c : Char} (h : isSign c = true) :
    takesSign hex c = false := by
  cases htakes : takesSign hex c with
  | false => rfl
  | true =>
    have hpart := isPart_of_takesSign htakes
    rw [isPart_of_isSign h] at hpart
    cases hpart

namespace IsRun

variable {hex : Bool} {c : Char} {run : List Char}

/-- The empty run is one. -/
theorem nil : IsRun hex [] := by
  intro before c behind h
  simp at h

/-- A character of a number may stand before any run. -/
theorem cons (hc : isPart c = true) (h : IsRun hex run) : IsRun hex (c :: run) := by
  intro before d behind heq
  cases before with
  | nil =>
    cases heq
    exact Or.inl hc
  | cons b before =>
    obtain ⟨rfl, htail⟩ := List.cons.inj heq
    rcases h before d behind htail with hpart | ⟨hsign, e, he, htakes⟩
    · exact Or.inl hpart
    · refine Or.inr ⟨hsign, e, ?_, htakes⟩
      rw [List.getLast?_cons, Option.mem_def.mp he]
      rfl

/-- A sign may stand behind a letter that takes one. -/
theorem cons_sign {s : Char} (hc : takesSign hex c = true) (hs : isSign s = true)
    (h : IsRun hex run) : IsRun hex (c :: s :: run) := by
  intro before d behind heq
  match before, heq with
  | [], heq =>
    cases heq
    exact Or.inl (isPart_of_takesSign hc)
  | [b], heq =>
    cases heq
    exact Or.inr ⟨hs, c, rfl, hc⟩
  | a :: b :: before, heq =>
    obtain ⟨rfl, htail⟩ := List.cons.inj heq
    obtain ⟨rfl, hmore⟩ := List.cons.inj htail
    rcases h before d behind hmore with hpart | ⟨hsign, e, he, htakes⟩
    · exact Or.inl hpart
    · refine Or.inr ⟨hsign, e, ?_, htakes⟩
      rw [List.getLast?_cons, List.getLast?_cons, Option.mem_def.mp he]
      rfl

/-- What stands in a run behind some character is a run, if it does not start
with the sign of that character. -/
theorem behind (front : List Char) (h : IsRun hex (front ++ c :: run))
    (hsign : ∀ s ∈ run.head?, (takesSign hex c && isSign s) = false) :
    IsRun hex run := by
  intro before d more heq
  have hwhole : front ++ c :: run = (front ++ c :: before) ++ d :: more := by
    rw [heq]
    simp
  rcases h _ _ _ hwhole with hpart | ⟨hd, e, he, htakes⟩
  · exact Or.inl hpart
  · rw [List.getLast?_append, List.getLast?_cons] at he
    cases hlast : before.getLast? with
    | none =>
      -- the character would be the one before the run
      rw [List.getLast?_eq_none_iff.mp hlast] at heq
      rw [hlast] at he
      cases he
      have hno := hsign d (by rw [heq]; rfl)
      rw [show takesSign hex c = true from htakes, hd] at hno
      cases hno
    | some last =>
      rw [hlast] at he
      cases he
      exact Or.inr ⟨hd, last, rfl, htakes⟩

end IsRun

/-- What is cut is a run. -/
theorem isRun_take_runLength (hex : Bool) (text : List Char) :
    IsRun hex (text.take (runLength hex text)) := by
  fun_induction runLength hex text with
  | case1 c s rest hsign ih =>
    obtain ⟨hc, hs⟩ := Bool.and_eq_true_iff.mp hsign
    exact ih.cons_sign hc hs
  | case2 c s rest _ hpart ih => exact ih.cons hpart
  | case3 => exact .nil
  | case4 c hpart => exact IsRun.nil.cons hpart
  | case5 => exact .nil
  | case6 => exact .nil

/-- No run that the text starts with is longer than what is cut. -/
theorem length_le_runLength (hex : Bool) (text : List Char) :
    ∀ other, other <+: text → IsRun hex other →
      other.length ≤ runLength hex text := by
  fun_induction runLength hex text with
  | case1 c s rest hsign ih =>
    intro other hother hrun
    rcases other with _ | ⟨a, _ | ⟨b, other⟩⟩
    · exact Nat.zero_le _
    · exact Nat.le_add_left 1 _
    · obtain ⟨rfl, htail⟩ := List.cons_prefix_cons.mp hother
      obtain ⟨rfl, hmore⟩ := List.cons_prefix_cons.mp htail
      have hs := (Bool.and_eq_true_iff.mp hsign).2
      have hrest : IsRun hex other :=
        hrun.behind [a] fun d _ => by rw [takesSign_of_isSign hs]; rfl
      exact Nat.add_le_add_right (ih other hmore hrest) 2
  | case2 c s rest hsign hpart ih =>
    intro other hother hrun
    cases other with
    | nil => exact Nat.zero_le _
    | cons a other =>
      obtain ⟨rfl, htail⟩ := List.cons_prefix_cons.mp hother
      refine Nat.add_le_add_right (ih other htail (hrun.behind [] fun d hd => ?_)) 1
      -- the character behind is the one that was found not to be the sign of this one
      cases other with
      | nil => cases hd
      | cons e other =>
        cases hd
        rw [(List.cons_prefix_cons.mp htail).1]
        exact Bool.eq_false_iff.mpr hsign
  | case3 c s rest _ hpart | case5 c hpart =>
    intro other hother hrun
    cases other with
    | nil => exact Nat.zero_le _
    | cons a other =>
      obtain ⟨rfl, -⟩ := List.cons_prefix_cons.mp hother
      rcases hrun [] a other rfl with h | ⟨-, e, he, -⟩
      · exact absurd h hpart
      · cases he
  | case4 c _ =>
    intro other hother _
    exact hother.length_le
  | case6 =>
    intro other hother _
    exact hother.length_le

/-- **What is cut as a number is the longest run.** -/
theorem longestRun_munch (text : List Char) :
    LongestRun text (text.take (munch text)) where
  leads := List.take_prefix _ _
  isRun := isRun_take_runLength _ _
  longest := by
    intro other hother hrun
    have hle := length_le_runLength _ text other hother hrun
    rw [List.length_take]
    exact Nat.le_min.mpr ⟨hle, hother.length_le⟩

/-- There is only one longest run. -/
theorem LongestRun.eq {text run run' : List Char} (h : LongestRun text run)
    (h' : LongestRun text run') : run = run' := by
  have hlength :=
    Nat.le_antisymm (h'.longest run h.leads h.isRun)
    (h.longest run' h'.leads h'.isRun)
  rw [List.prefix_iff_eq_take.mp h.leads,
    List.prefix_iff_eq_take.mp h'.leads, hlength]

/-! ## The grammar of numbers -/

/-- At least one digit, and perhaps a point among the digits; the flag says
whether there is one. -/
inductive Mantissa (isDigit : Char → Bool) : List Char → Bool → Prop
  | whole {digits : List Char} : digits ≠ [] → (∀ c ∈ digits, isDigit c = true) →
      Mantissa isDigit digits false
  | pointed {whole fraction : List Char} : whole ++ fraction ≠ [] →
      (∀ c ∈ whole ++ fraction, isDigit c = true) →
    Mantissa isDigit (whole ++ '.' :: fraction) true

/-- The letter that opens an exponent, perhaps a sign, and at least one
decimal digit. -/
inductive Exponent (mark : Char) : List Char → Prop
  | mk {sign digits : List Char} : sign ∈ [[], ['+'], ['-']] → digits ≠ [] →
      (∀ c ∈ digits, c.isDigit = true) →
    Exponent mark (mark :: (sign ++ digits))

/-- The letter that opens the exponent of a number, if there can be one. -/
def Radix.exponentMark? : Radix → Option Char
  | .decimal => some 'e'
  | .hex => some 'p'
  | .binary | .octal => none

/-- The forms of a number in lower case, without the mark of its radix and
without underscores. A hexadecimal number with a point needs an exponent;
binary and octal numbers have neither. The flag says whether there is a point
or an exponent. -/
inductive Form (radix : Radix) : List Char → Bool → Prop
  | whole {digits : List Char} : Mantissa radix.isDigit digits false →
      Form radix digits false
  | pointed {text : List Char} : radix = .decimal → Mantissa radix.isDigit text true →
      Form radix text true
  | scaled {text exponent : List Char} {point : Bool} {mark : Char} :
      radix.exponentMark? = some mark →
    Mantissa radix.isDigit text point → Exponent mark exponent →
      Form radix (text ++ exponent) true

/-- The mark that a number of the radix starts with. -/
def Radix.mark : Radix → List Char
  | .binary => ['0', 'b']
  | .octal => ['0', 'o']
  | .decimal => []
  | .hex => ['0', 'x']

/-- How the text of a number is put together: the mark of its radix and `digits`
in any case, and `i` at the end if it is imaginary. A number whose text starts
with none of the other marks is decimal. -/
structure Composed (text : List Char) (imaginary : Bool) (radix : Radix)
  (digits : List Char) : Prop where
  parts : ∃ front, text = front ++ (if imaginary then ['i'] else []) ∧
    (imaginary = false → front.getLast? ≠ some 'i') ∧
      front.map Char.toLower = radix.mark ++ digits
  unmarked : radix = .decimal → ∀ other, other ≠ .decimal →
    ¬ Radix.mark other <+: digits

/-- What the forms of numbers are called. -/
def kindOf (imaginary fractional : Bool) : LiteralKind :=
  if imaginary then .imaginary else if fractional then .float else .int

/-- The text is a number of this kind. -/
def Denotes (text : List Char) (kind : LiteralKind) : Prop :=
  ∃ imaginary radix digits fractional, Composed text imaginary radix digits ∧
    Form radix (digits.filter (· != '_')) fractional ∧
      kind = kindOf imaginary fractional

/-! ## Characters of numbers -/

/-- The letter that opens an exponent is the one of the radix. -/
theorem Radix.isExponentMark_iff {radix : Radix} {c : Char} :
    radix.isExponentMark c = true ↔ radix.exponentMark? = some c := by
  cases radix with
  | binary | octal => exact ⟨nofun, nofun⟩
  | decimal | hex =>
    constructor
    · intro h
      rw [eq_of_beq h]
      rfl
    · intro h
      cases h
      rfl

/-- A digit of any radix is none of the characters with another meaning. -/
theorem Radix.of_isDigit {radix : Radix} {c : Char} (h : radix.isDigit c = true) :
    (c == '_') = false ∧ (c == '.') = false ∧ radix.isExponentMark c = false := by
  refine ⟨?_, ?_, ?_⟩
  · refine beq_false_of_ne fun heq => ?_
    subst heq
    cases radix <;> exact absurd h (by decide)
  · refine beq_false_of_ne fun heq => ?_
    subst heq
    cases radix <;> exact absurd h (by decide)
  · refine Bool.eq_false_iff.mpr fun hmark => ?_
    have hsome := isExponentMark_iff.mp hmark
    cases radix <;> cases hsome <;> exact absurd h (by decide)

/-- It is neither an underscore nor a point. -/
theorem Radix.of_exponentMark? {radix : Radix} {mark : Char}
    (h : radix.exponentMark? = some mark) :
    (mark == '_') = false ∧ (mark == '.') = false := by
  cases radix <;> cases h <;> decide

/-- What is left of digits and underscores are digits. -/
theorem forall_digit_of_filter {isDigit : Char → Bool} {text digits : List Char}
    (h : text.filter (· != '_') = digits) (hdigits : ∀ c ∈ digits, isDigit c = true) :
    ∀ c ∈ text, (c == '_') = true ∨ isDigit c = true := by
  intro c hc
  by_cases hunder : c = '_'
  · exact Or.inl (beq_iff_eq.mpr hunder)
  · refine Or.inr (hdigits c ?_)
    rw [← h]
    exact List.mem_filter.mpr ⟨hc, by simpa using hunder⟩

/-! ## What the classification reads -/

/-- What has been read of a number, when `digit` and `point` say whether a digit
and the point were among it. -/
inductive Seen (isDigit : Char → Bool) : Bool → Bool → List Char → Prop
  | whole {digits : List Char} : (∀ c ∈ digits, isDigit c = true) →
      Seen isDigit (!digits.isEmpty) false digits
  | pointed {whole fraction : List Char} :
      (∀ c ∈ whole ++ fraction, isDigit c = true) →
    Seen isDigit (!(whole ++ fraction).isEmpty) true (whole ++ '.' :: fraction)

namespace Seen

variable {isDigit : Char → Bool} {digit point : Bool} {seen : List Char}

/-- A further digit has been seen. -/
theorem concat {c : Char} (h : Seen isDigit digit point seen) (hc : isDigit c = true) :
    Seen isDigit true point (seen ++ [c]) := by
  have hmem : ∀ {digits : List Char}, (∀ d ∈ digits, isDigit d = true) →
      ∀ d ∈ digits ++ [c], isDigit d = true := by
    intro digits hdigits d hd
    rcases List.mem_append.mp hd with hd | hd
    · exact hdigits d hd
    · rw [List.mem_singleton.mp hd]
      exact hc
  cases h with
  | whole hdigits =>
    have hmore := Seen.whole (hmem hdigits)
    rwa [List.isEmpty_eq_false_iff.mpr (by simp)] at hmore
  | @pointed whole fraction hdigits =>
    have hall := hmem hdigits
    rw [List.append_assoc] at hall
    have hmore := Seen.pointed hall
    rw [List.isEmpty_eq_false_iff.mpr (by simp)] at hmore
    simpa using hmore

/-- A first point has been seen. -/
theorem addPoint (h : Seen isDigit digit false seen) :
    Seen isDigit digit true (seen ++ ['.']) := by
  cases h with
  | @whole digits hdigits =>
    have hmore := @Seen.pointed isDigit seen [] (by simpa using hdigits)
    rwa [List.append_nil] at hmore

/-- What has been seen is a mantissa as soon as there is a digit in it. -/
theorem mantissa (h : Seen isDigit true point seen) :
    Mantissa isDigit seen point := by
  generalize hdigit : true = digit at h
  cases h with
  | whole hdigits =>
    exact .whole (List.isEmpty_eq_false_iff.mp (by simpa using hdigit.symm)) hdigits
  | pointed hdigits =>
    exact .pointed (List.isEmpty_eq_false_iff.mp (by simpa using hdigit.symm)) hdigits

end Seen

/-- Digits and underscores among which is a digit leave digits, of which
there is one. -/
theorem digits_of_all {text : List Char}
    (hall : text.all (fun c => c == '_' || c.isDigit) = true)
    (hany : text.any Char.isDigit = true) :
    text.filter (· != '_') ≠ [] ∧ ∀ c ∈ text.filter (· != '_'), c.isDigit = true := by
  constructor
  · obtain ⟨c, hc, hdigit⟩ := List.any_eq_true.mp hany
    have hunder := (@Radix.of_isDigit .decimal c hdigit).1
    exact List.ne_nil_of_mem (List.mem_filter.mpr ⟨hc, by simpa using hunder⟩)
  · intro c hc
    obtain ⟨hmem, hunder⟩ := List.mem_filter.mp hc
    have h := List.all_eq_true.mp hall c hmem
    rcases Bool.or_eq_true_iff.mp h with h | h
    · simp [eq_of_beq h] at hunder
    · exact h

/-- A text has one of three signs in front: none, plus or minus. -/
theorem exists_sign (text : List Char) :
    ∃ sign ∈ [[], ['+'], ['-']], text = sign ++ dropSign text := by
  unfold dropSign
  split
  next => exact ⟨['+'], by simp, rfl⟩
  next => exact ⟨['-'], by simp, rfl⟩
  next => exact ⟨[], by simp, rfl⟩

/-- Taking out underscores leaves a sign alone. -/
theorem filter_sign {sign : List Char} (h : sign ∈ [[], ['+'], ['-']])
    (digits : List Char) :
    (sign ++ digits).filter (· != '_') = sign ++ digits.filter (· != '_') := by
  simp only [List.mem_cons, List.not_mem_nil, or_false] at h
  rcases h with rfl | rfl | rfl <;> rfl

/-- What is accepted as an exponent is one, without its underscores. -/
theorem exponent_of_isExponent {mark : Char} {text : List Char}
    (h : isExponent text = true) :
    Exponent mark (mark :: text.filter (· != '_')) := by
  obtain ⟨hall, hany⟩ := Bool.and_eq_true_iff.mp h
  obtain ⟨hne, hdigits⟩ := digits_of_all hall hany
  obtain ⟨sign, hsign, htext⟩ := exists_sign text
  rw [htext, filter_sign hsign]
  exact .mk hsign hne hdigits

/-- What the classification accepts is a number. -/
theorem form_of_kindFrom {radix : Radix} {digit point : Bool} {text : List Char}
    {kind : LiteralKind} (h : kindFrom radix digit point text = some kind)
    (hpoint : point = true → radix.hasPoint = true) :
    ∀ seen, Seen radix.isDigit digit point seen →
      ∃ fractional, Form radix (seen ++ text.filter (· != '_')) fractional ∧
        kind = kindOf false fractional := by
  fun_induction kindFrom radix digit point text with
  | case1 => cases h
  | case2 digit point hdigit hnone =>
    intro seen hseen
    cases h
    obtain rfl : digit = true := by simpa using hdigit
    obtain rfl : point = false := by simpa using hnone
    refine ⟨false, ?_, rfl⟩
    rw [List.filter_nil, List.append_nil]
    exact .whole hseen.mantissa
  | case3 => cases h
  | case4 digit point hdigit hsome hhex =>
    intro seen hseen
    cases h
    obtain rfl : digit = true := by simpa using hdigit
    obtain rfl : point = true := by simpa using hsome
    refine ⟨true, ?_, rfl⟩
    rw [List.filter_nil, List.append_nil]
    refine .pointed ?_ hseen.mantissa
    have hradix := hpoint rfl
    cases radix with
    | decimal => rfl
    | hex => exact absurd rfl hhex
    | binary | octal => cases hradix
  | case5 digit point c rest hunder ih =>
    intro seen hseen
    rw [List.filter_cons_of_neg (by simpa using hunder)]
    exact ih h hpoint seen hseen
  | case6 digit point c rest hunder hdot ih =>
    intro seen hseen
    simp only [Bool.and_eq_true, beq_iff_eq, Bool.not_eq_true'] at hdot
    obtain ⟨⟨rfl, rfl⟩, hradix⟩ := hdot
    have hform := ih h (fun _ => hradix) _ hseen.addPoint
    rwa [List.append_assoc] at hform
  | case7 digit point c rest hunder _ hmark hexponent =>
    intro seen hseen
    cases h
    obtain ⟨rfl, hrest⟩ := Bool.and_eq_true_iff.mp hexponent
    refine ⟨true, ?_, rfl⟩
    rw [List.filter_cons_of_pos (by simpa using hunder)]
    exact .scaled (Radix.isExponentMark_iff.mp hmark) hseen.mantissa
      (exponent_of_isExponent hrest)
  | case8 => cases h
  | case9 digit point c rest hunder _ _ hc ih =>
    intro seen hseen
    have hform := ih h hpoint _ (hseen.concat hc)
    rw [List.filter_cons_of_pos (by simpa using hunder)]
    rwa [List.append_assoc] at hform
  | case10 => cases h

/-! ## Numbers are classified -/

/-- No sign stands right behind an underscore. -/
def SignsAttached (text : List Char) : Prop :=
  ∀ before s behind, text = before ++ '_' :: s :: behind → isSign s = false

/-- In a part of a text, signs stand where they stood in the whole. -/
theorem SignsAttached.of_infix {text part : List Char} (h : SignsAttached text)
    (hpart : part <:+: text) : SignsAttached part := by
  obtain ⟨front, back, rfl⟩ := hpart
  intro before s behind heq
  refine h (front ++ before) s (behind ++ back) ?_
  rw [heq]
  simp

/-- **In a run no sign stands behind an underscore**, since an
underscore takes none. -/
theorem IsRun.signsAttached {hex : Bool} {run : List Char} (h : IsRun hex run) :
    SignsAttached run := by
  intro before s behind heq
  rcases h (before ++ ['_']) s behind (by rw [heq]; simp) with hpart
    | ⟨-, e, he, htakes⟩
  · refine Bool.eq_false_iff.mpr fun hsign => ?_
    rw [isPart_of_isSign hsign] at hpart
    cases hpart
  · rw [List.getLast?_concat] at he
    cases he
    cases hex <;> cases htakes

/-- What is not a letter in lower case was not changed. -/
theorem eq_of_toLower_eq {c d : Char} (h : c.toLower = d) (hd : d.isLower = false) :
    c = d := by
  unfold Char.toLower at h
  split at h
  next hupper =>
    -- a letter in upper case becomes one in lower case
    have hlow : 65 ≤ c.val.toNat := UInt32.le_iff_toNat_le.mp hupper.1
    have hhigh : c.val.toNat ≤ 90 := UInt32.le_iff_toNat_le.mp hupper.2
    have hval : d.val.toNat = c.val.toNat + 32 := by
      rw [← h]
      show (c.val + 32).toNat = _
      rw [UInt32.toNat_add]
      exact Nat.mod_eq_of_lt (by show c.val.toNat + 32 < 4294967296; omega)
    have hge : 'a'.val ≤ d.val := UInt32.le_iff_toNat_le.mpr (by show 97 ≤ _; omega)
    have hle : d.val ≤ 'z'.val := UInt32.le_iff_toNat_le.mpr (by show _ ≤ 122; omega)
    have hlower : d.isLower = true :=
      Bool.and_eq_true_iff.mpr ⟨decide_eq_true hge, decide_eq_true hle⟩
    rw [hlower] at hd
    cases hd
  next => exact h

/-- Signs and underscores have no case. -/
theorem SignsAttached.map_toLower {text : List Char} (h : SignsAttached text) :
    SignsAttached (text.map Char.toLower) := by
  intro before s behind heq
  obtain ⟨front, back, rfl, -, hback⟩ := List.map_eq_append_iff.mp heq
  obtain ⟨u, more, rfl, hu, hmore⟩ := List.map_eq_cons_iff.mp hback
  obtain ⟨t, rest, rfl, ht, -⟩ := List.map_eq_cons_iff.mp hmore
  obtain rfl : u = '_' := eq_of_toLower_eq hu rfl
  refine Bool.eq_false_iff.mpr fun hsign => ?_
  have hlower : s.isLower = false := by
    simp only [isSign, Bool.or_eq_true, beq_iff_eq] at hsign
    rcases hsign with rfl | rfl <;> rfl
  obtain rfl : t = s := eq_of_toLower_eq ht hlower
  rw [h front t rest rfl] at hsign
  cases hsign

/-- Digits and underscores are read over, and it is remembered whether
there was a digit. -/
theorem kindFrom_digits {radix : Radix} {text : List Char}
    (h : ∀ c ∈ text, (c == '_') = true ∨ radix.isDigit c = true) (digit point : Bool)
    (rest : List Char) :
    kindFrom radix digit point (text ++ rest)
      = kindFrom radix (digit || text.any radix.isDigit) point rest := by
  induction text generalizing digit with
  | nil => rw [List.nil_append, List.any_nil, Bool.or_false]
  | cons c text ih =>
    have hmore := ih fun d hd => h d (List.mem_cons_of_mem c hd)
    rcases h c List.mem_cons_self with hunder | hdigit
    · have hnot : radix.isDigit c = false := by
        refine Bool.eq_false_iff.mpr fun hdigit => ?_
        rw [(Radix.of_isDigit hdigit).1] at hunder
        cases hunder
      rw [List.cons_append, kindFrom, if_pos hunder, hmore, List.any_cons, hnot,
        Bool.false_or]
    · obtain ⟨hunder, hdot, hmark⟩ := Radix.of_isDigit hdigit
      simp only [List.cons_append, kindFrom, hunder, hdot, hmark, hdigit, hmore,
        List.any_cons, Bool.false_and,
        Bool.false_eq_true, if_false, if_true, Bool.true_or, Bool.or_true]

/-- If digits are left without the underscores, there were digits. -/
theorem any_digit_of_filter {radix : Radix} {text digits : List Char}
    (h : text.filter (· != '_') = digits) (hne : digits ≠ [])
    (hdigits : ∀ c ∈ digits, radix.isDigit c = true) :
    text.any radix.isDigit = true := by
  obtain ⟨c, hc⟩ := List.exists_mem_of_ne_nil digits hne
  refine List.any_eq_true.mpr ⟨c, ?_, hdigits c hc⟩
  rw [← h] at hc
  exact List.mem_of_mem_filter hc

/-- Behind a mantissa the classification knows that there was a digit, and
whether there was a point. -/
theorem kindFrom_mantissa {radix : Radix} {text digits : List Char} {point : Bool}
    (h : text.filter (· != '_') = digits)
    (hmantissa : Mantissa radix.isDigit digits point)
    (hpoint : point = true → radix.hasPoint = true) (rest : List Char) :
    kindFrom radix false false (text ++ rest) = kindFrom radix true point rest := by
  cases hmantissa with
  | whole hne hdigits =>
    rw [kindFrom_digits (forall_digit_of_filter h hdigits),
      any_digit_of_filter h hne hdigits, Bool.false_or]
  | @pointed whole fraction hne hdigits =>
    obtain ⟨front, back, rfl, hfront, hback⟩ := List.filter_eq_append_iff.mp h
    obtain ⟨unders, behind, rfl, hunders, -, hbehind⟩ :=
      List.filter_eq_cons_iff.mp hback
    have hwhole : (front ++ unders).filter (· != '_') = whole := by
      rw [List.filter_append, hfront, List.filter_eq_nil_iff.mpr hunders,
        List.append_nil]
    have hbefore := forall_digit_of_filter hwhole
      fun c hc => hdigits c (List.mem_append_left _ hc)
    have hafter := forall_digit_of_filter hbehind
      fun c hc => hdigits c (List.mem_append_right _ hc)
    have hany : ((front ++ unders) ++ behind).any radix.isDigit = true :=
      any_digit_of_filter (by rw [List.filter_append, hwhole, hbehind]) hne hdigits
    have hstep : ∀ digit, kindFrom radix digit false ('.' :: (behind ++ rest)) =
        kindFrom radix digit true (behind ++ rest) := by
      intro digit
      rw [kindFrom, if_neg (by decide), if_pos (by simpa using hpoint rfl)]
    calc kindFrom radix false false (front ++ (unders ++ '.' :: behind) ++ rest)
        = kindFrom radix false false
          ((front ++ unders) ++ '.' :: (behind ++ rest)) := by simp
      _ = kindFrom radix ((front ++ unders).any radix.isDigit
        || behind.any radix.isDigit) true rest := by
        rw [kindFrom_digits hbefore, hstep, kindFrom_digits hafter, Bool.false_or]
      _ = kindFrom radix true true rest := by rw [← List.any_append, hany]

/-- The sign of an exponent is at its head, where no underscore can
come before it. -/
theorem exists_of_filter_sign {text sign digits : List Char}
    (h : text.filter (· != '_') = sign ++ digits) (hsign : sign ∈ [[], ['+'], ['-']])
    (hattached : SignsAttached text) :
    ∃ behind, text = sign ++ behind ∧ behind.filter (· != '_') = digits := by
  have hhead : ∀ s, isSign s = true → text.filter (· != '_') = s :: digits →
      ∃ behind, text = s :: behind ∧ behind.filter (· != '_') = digits := by
    intro s hs hfilter
    obtain ⟨unders, behind, rfl, hunders, -, hbehind⟩ :=
      List.filter_eq_cons_iff.mp hfilter
    rcases List.eq_nil_or_concat unders with rfl | ⟨before, u, rfl⟩
    · exact ⟨behind, rfl, hbehind⟩
    · obtain rfl : u = '_' := by simpa using hunders u (by simp)
      rw [hattached before s behind (by simp)] at hs
      cases hs
  simp only [List.mem_cons, List.not_mem_nil, or_false] at hsign
  rcases hsign with rfl | rfl | rfl
  · exact ⟨text, rfl, h⟩
  · exact hhead '+' rfl h
  · exact hhead '-' rfl h

/-- A sign is dropped, and nothing of the digits behind it. -/
theorem dropSign_append {sign behind : List Char} (hsign : sign ∈ [[], ['+'], ['-']])
    (hbehind : ∀ c ∈ behind, (c == '_') = true ∨ c.isDigit = true) :
    dropSign (sign ++ behind) = behind := by
  simp only [List.mem_cons, List.not_mem_nil, or_false] at hsign
  rcases hsign with rfl | rfl | rfl
  · rw [List.nil_append]
    unfold dropSign
    split
    next => exact absurd (hbehind '+' List.mem_cons_self) (by decide)
    next => exact absurd (hbehind '-' List.mem_cons_self) (by decide)
    next => rfl
  · rfl
  · rfl

/-- An exponent of the grammar is accepted with underscores in it, if its sign
has none before it. -/
theorem isExponent_of_filter {text sign digits : List Char}
    (h : text.filter (· != '_') = sign ++ digits) (hsign : sign ∈ [[], ['+'], ['-']])
    (hne : digits ≠ []) (hdigits : ∀ c ∈ digits, c.isDigit = true)
    (hattached : SignsAttached text) : isExponent text = true := by
  obtain ⟨behind, rfl, hbehind⟩ := exists_of_filter_sign h hsign hattached
  have hall := forall_digit_of_filter hbehind hdigits
  rw [isExponent, dropSign_append hsign hall]
  refine Bool.and_eq_true_iff.mpr
    ⟨?_, @any_digit_of_filter .decimal _ _ hbehind hne hdigits⟩
  exact List.all_eq_true.mpr fun c hc => Bool.or_eq_true_iff.mpr (hall c hc)

/-- **The classification accepts every number**, if no sign stands behind
an underscore. -/
theorem kindFrom_of_form {radix : Radix} {text : List Char} {fractional : Bool}
    (h : Form radix (text.filter (· != '_')) fractional)
    (hattached : SignsAttached text) :
    kindFrom radix false false text = some (kindOf false fractional) := by
  generalize hdigits : text.filter (· != '_') = digits at h
  cases h with
  | whole hmantissa =>
    have hkind := kindFrom_mantissa hdigits hmantissa nofun []
    rw [List.append_nil] at hkind
    rw [hkind]
    rfl
  | pointed hradix hmantissa =>
    subst hradix
    have hkind := kindFrom_mantissa hdigits hmantissa (fun _ => rfl) []
    rw [List.append_nil] at hkind
    rw [hkind]
    rfl
  | @scaled mantissa _ point mark hmark hmantissa hexponent =>
    cases hexponent with
    | mk hsign hne hall =>
      obtain ⟨front, back, rfl, hfront, hback⟩ := List.filter_eq_append_iff.mp hdigits
      obtain ⟨unders, behind, rfl, hunders, -, hbehind⟩ :=
        List.filter_eq_cons_iff.mp hback
      have hwhole : (front ++ unders).filter (· != '_') = mantissa := by
        rw [List.filter_append, hfront, List.filter_eq_nil_iff.mpr hunders,
          List.append_nil]
      have hpoint : point = true → radix.hasPoint = true := by
        intro _
        cases radix <;> cases hmark <;> rfl
      have hbehindAttached : SignsAttached behind :=
        hattached.of_infix ⟨front ++ (unders ++ [mark]), [], by simp⟩
      obtain ⟨hunder, hdot⟩ := Radix.of_exponentMark? hmark
      rw [← List.append_assoc, kindFrom_mantissa hwhole hmantissa hpoint, kindFrom]
      simp only [hunder, hdot, Radix.isExponentMark_iff.mpr hmark, Bool.false_and,
        Bool.false_eq_true, if_false,
        if_true, isExponent_of_filter hbehind hsign hne hall hbehindAttached,
          Bool.and_self]
      rfl

/-- A text is decimal if no other mark stands in front. -/
theorem Radix.split_eq_iff {text digits : List Char} {radix : Radix} :
    Radix.split text = (radix, digits) ↔ text = radix.mark ++ digits ∧
      (radix = .decimal → ∀ other, other ≠ .decimal →
        ¬ Radix.mark other <+: digits) := by
  constructor
  · intro h
    unfold Radix.split at h
    split at h
    next => cases h; exact ⟨rfl, nofun⟩
    next => cases h; exact ⟨rfl, nofun⟩
    next => cases h; exact ⟨rfl, nofun⟩
    next hhex hbinary hoctal =>
      cases h
      refine ⟨rfl, fun _ other hother hmarked => ?_⟩
      obtain ⟨rest, hrest⟩ := hmarked
      cases other with
      | decimal => exact hother rfl
      | hex => exact hhex rest hrest.symm
      | binary => exact hbinary rest hrest.symm
      | octal => exact hoctal rest hrest.symm
  · rintro ⟨rfl, hunmarked⟩
    cases radix with
    | hex | binary | octal => rfl
    | decimal =>
      show Radix.split digits = _
      unfold Radix.split
      split
      next rest => exact absurd ⟨rest, rfl⟩ (hunmarked rfl .hex nofun)
      next rest => exact absurd ⟨rest, rfl⟩ (hunmarked rfl .binary nofun)
      next rest => exact absurd ⟨rest, rfl⟩ (hunmarked rfl .octal nofun)
      next => rfl

/-- What is read of the text in front of the mark of an imaginary number. -/
theorem realKind_eq_some_iff {front : List Char} {kind : LiteralKind}
    (hattached : SignsAttached front) :
    realKind front = some kind ↔
      ∃ radix digits fractional, Radix.split (front.map Char.toLower)
      = (radix, digits) ∧
      Form radix (digits.filter (· != '_')) fractional ∧
      kind = kindOf false fractional := by
  constructor
  · intro h
    obtain ⟨fractional, hform, hkind⟩ :=
      form_of_kindFrom h nofun [] (@Seen.whole _ [] (by simp))
    exact ⟨_, _, fractional, rfl, hform, hkind⟩
  · rintro ⟨radix, digits, fractional, hsplit, hform, rfl⟩
    have hsuffix : digits <:+: front.map Char.toLower := ⟨radix.mark, [], by
      rw [(Radix.split_eq_iff.mp hsplit).1, List.append_nil]⟩
    have hkind := kindFrom_of_form hform (hattached.map_toLower.of_infix hsuffix)
    simpa only [realKind, hsplit] using hkind

/-- An imaginary number is taken apart at its last letter. -/
theorem composed_imaginary_iff {text digits : List Char} {radix : Radix} :
    Composed text true radix digits ↔
      ∃ front, text = front ++ ['i'] ∧
        Radix.split (front.map Char.toLower) = (radix, digits) := by
  constructor
  · rintro ⟨⟨front, htext, -, hdigits⟩, hunmarked⟩
    exact ⟨front, htext, Radix.split_eq_iff.mpr ⟨hdigits, hunmarked⟩⟩
  · rintro ⟨front, htext, hsplit⟩
    obtain ⟨hdigits, hunmarked⟩ := Radix.split_eq_iff.mp hsplit
    exact ⟨⟨front, htext, nofun, hdigits⟩, hunmarked⟩

/-- A text that does not end in that letter is taken apart as it is. -/
theorem composed_real_iff {text digits : List Char} {radix : Radix} :
    Composed text false radix digits ↔
      text.getLast? ≠ some 'i' ∧
      Radix.split (text.map Char.toLower) = (radix, digits) := by
  constructor
  · rintro ⟨⟨front, htext, hlast, hdigits⟩, hunmarked⟩
    obtain rfl : text = front := by simpa using htext
    exact ⟨hlast rfl, Radix.split_eq_iff.mpr ⟨hdigits, hunmarked⟩⟩
  · rintro ⟨hlast, hsplit⟩
    obtain ⟨hdigits, hunmarked⟩ := Radix.split_eq_iff.mp hsplit
    exact ⟨⟨text, by simp, fun _ => hlast, hdigits⟩, hunmarked⟩

/-- **The classification finds the kind of every number**, and of nothing else. -/
theorem classify_eq_some_iff {text : List Char} {kind : LiteralKind}
    (hattached : SignsAttached text) :
    classify text = some kind ↔ Denotes text kind := by
  by_cases hlast : text.getLast? = some 'i'
  · obtain ⟨front, rfl⟩ := List.getLast?_eq_some_iff.mp hlast
    have hclassify : classify (front ++ ['i'])
        = (realKind front).map fun _ => .imaginary := by
      simp [classify, withoutImaginaryMark]
    have hfront := hattached.of_infix (List.prefix_append front ['i']).isInfix
    rw [hclassify, Option.map_eq_some_iff]
    constructor
    · rintro ⟨real, hreal, rfl⟩
      obtain ⟨radix, digits, fractional, hsplit, hform, -⟩ :=
        (realKind_eq_some_iff hfront).mp hreal
      exact ⟨true, radix, digits, fractional,
        composed_imaginary_iff.mpr ⟨front, rfl, hsplit⟩, hform, rfl⟩
    · rintro ⟨imaginary, radix, digits, fractional, hcomposed, hform, rfl⟩
      cases imaginary with
      | false => exact absurd hlast (composed_real_iff.mp hcomposed).1
      | true =>
        obtain ⟨other, htext, hsplit⟩ := composed_imaginary_iff.mp hcomposed
        obtain rfl := List.append_cancel_right htext
        exact ⟨_, (realKind_eq_some_iff hfront).mpr ⟨radix, digits, fractional,
          hsplit, hform, rfl⟩, rfl⟩
  · have hclassify : classify text = realKind text := by
      simp [classify, withoutImaginaryMark, hlast]
    rw [hclassify, realKind_eq_some_iff hattached]
    constructor
    · rintro ⟨radix, digits, fractional, hsplit, hform, rfl⟩
      exact ⟨false, radix, digits, fractional, composed_real_iff.mpr ⟨hlast, hsplit⟩,
        hform, rfl⟩
    · rintro ⟨imaginary, radix, digits, fractional, hcomposed, hform, rfl⟩
      cases imaginary with
      | false =>
        exact ⟨radix, digits, fractional, (composed_real_iff.mp hcomposed).2,
          hform, rfl⟩
      | true =>
        obtain ⟨front, rfl, -⟩ := composed_imaginary_iff.mp hcomposed
        exact absurd List.getLast?_concat hlast

end Number

/-! ## Numbers in a source -/

namespace Lexeme

/-- The cut of a source comes to this text, behind `before`. -/
def ComesTo (source before behind : List Char) : Prop :=
  ∃ ls, cut source = ls ++ cut behind ∧ before = ls.flatMap text ∧
    source = before ++ behind

/-- Where a number starts, a number is cut. -/
theorem cutFirst_of_starts {c : Char} {rest : List Char}
    (h : Number.Starts (c :: rest)) : cutFirst c rest = cutNumber (c :: rest) := by
  obtain ⟨d, more, heq, hstart⟩ := h
  obtain ⟨rfl, rfl⟩ := List.cons.inj heq
  rcases hstart with hdigit | ⟨rfl, d, hd, hdigit⟩
  · exact cutFirst_of_isDigit hdigit rest
  · obtain ⟨tail, rfl⟩ := List.head?_eq_some_iff.mp hd
    exact (FirstCut.fraction hdigit).cutFirst_eq

/-- Cutting a number is taking the run and classifying it. -/
theorem cutNumber_eq (text : List Char) :
    cutNumber text
      = ((Number.classify (text.take (Number.munch text))).elim
      (.fault .invalidNumber) .literal,
      Number.munch text - 1) := by
  simp only [cutNumber]
  cases Number.classify (text.take (Number.munch text)) <;> rfl

/-- The lexeme that is cut where a number starts. -/
theorem cut_of_starts {text : List Char} (h : Number.Starts text) :
    ∃ more, cut text
      = ⟨(Number.classify (text.take (Number.munch text))).elim
      (.fault .invalidNumber) .literal,
      text.take (Number.munch text)⟩ :: more := by
  obtain ⟨c, rest, rfl, hstart⟩ := id h
  have hpart : Number.isPart c = true := by
    rcases hstart with hdigit | ⟨rfl, -⟩
    · exact isPart_of_isDigit hdigit
    · rfl
  obtain ⟨n, hn⟩ : ∃ n, Number.munch (c :: rest) = n + 1 :=
    Nat.exists_eq_add_one.mpr (Number.runLength_pos hpart rest)
  have hcut := cutFirst_of_starts h
  rw [cutNumber_eq, hn] at hcut
  refine ⟨cut (rest.drop n), ?_⟩
  rw [cut, hcut, hn]
  rfl

end Lexeme

/-- What is read of a list of lexemes ends with what is read of its last ones. -/
theorem readings_split (ls more : List Lexeme) :
    ∀ (canEnd : Bool) (offset : Nat), ∃ found flag,
    readings canEnd offset (ls ++ more)
      = found ++ readings flag (offset + Text.byteLength (ls.flatMap Lexeme.text))
        more := by
  induction ls with
  | nil => exact fun canEnd offset => ⟨[], canEnd, rfl⟩
  | cons l ls ih =>
    intro canEnd offset
    obtain ⟨found, flag, heq⟩ :=
      ih ((l.effect canEnd offset).canEnd canEnd) (offset + l.byteLength)
    refine ⟨((l.effect canEnd offset).reading? offset (offset + l.byteLength)).toList
      ++ found, flag, ?_⟩
    rw [List.cons_append, readings_cons, heq, List.flatMap_cons,
      Text.byteLength_append, List.append_assoc, ← Nat.add_assoc]
    rfl

/-- The lexeme that the cut comes to is read at its place. -/
theorem Lexeme.ComesTo.mem_readings {source before text : List Char} {l : Lexeme}
    {more : List Lexeme} (h : ComesTo source before text)
    (hcut : cut text = l :: more) :
    ∃ canEnd, ∀ r ∈ (l.effect canEnd (Text.byteLength before)).reading?
      (Text.byteLength before)
      (Text.byteLength before + l.byteLength), r ∈ readings false 0 (cut source) := by
  obtain ⟨ls, hsource, rfl, -⟩ := h
  obtain ⟨found, canEnd, hreadings⟩ := readings_split ls (cut text) false 0
  rw [← hsource, hcut, readings_cons, Nat.zero_add] at hreadings
  refine ⟨canEnd, fun r hr => ?_⟩
  rw [hreadings]
  exact List.mem_append_right _ (List.mem_append_left _ (Option.mem_toList.mpr hr))

/-- What becomes of a number that starts at an offset with this run of
characters: the run is one token, a literal if it denotes a number, and
otherwise an error with its report. -/
structure ReadAs (source : String) (start : Nat) (run : List Char) (tok : Tok) :
  Prop where
  mem : ⟨start, tok, start + Text.byteLength run⟩ ∈ (tokenize source).tokens
  literal_iff : ∀ kind text, tok = .literal kind text ↔
    text = String.ofList run ∧ Number.Denotes run kind
  error_iff : tok = .error ↔ ∀ kind, ¬ Number.Denotes run kind
  reported : tok = .error →
    ⟨.lexical, Span.clamp start (start + Text.byteLength run),
      "invalid numeric literal"⟩ ∈
      (tokenize source).diagnostics

/-- **Numbers are cut as long as they can be and classified by their grammar.**
Wherever in a source a number starts, the longest run of its characters is read
as one token: a literal of the kind that the run denotes, or a reported error if
it denotes none. -/
theorem number_readAs {source : String} {before text : List Char}
    (hplace : Lexeme.ComesTo source.toList before text) (hstarts : Number.Starts text) :
    ∃ run tok, Number.LongestRun text run ∧
      ReadAs source (Text.byteLength before) run tok := by
  obtain ⟨more, hcut⟩ := Lexeme.cut_of_starts hstarts
  obtain ⟨canEnd, hread⟩ := hplace.mem_readings hcut
  have hlongest := Number.longestRun_munch text
  generalize text.take (Number.munch text) = run at hread hlongest
  have hclassify : ∀ kind, Number.Denotes run kind ↔
      Number.classify run = some kind := fun kind =>
    (Number.classify_eq_some_iff hlongest.isRun.signsAttached).symm
  cases hkind : Number.classify run with
  | some kind =>
    rw [hkind] at hread
    refine ⟨run, .literal kind (String.ofList run), hlongest,
      List.mem_map.mpr ⟨_, hread _ rfl, rfl⟩, ?_, ?_, nofun⟩
    · intro other text
      rw [hclassify, hkind, Tok.literal.injEq, Option.some.injEq, and_comm,
        eq_comm (a := text)]
    · exact ⟨nofun, fun hnone => absurd ((hclassify kind).mpr hkind) (hnone kind)⟩
  | none =>
    have hnone : ∀ kind, ¬ Number.Denotes run kind := by
      intro kind hdenotes
      rw [hclassify, hkind] at hdenotes
      cases hdenotes
    rw [hkind] at hread
    refine ⟨run, .error, hlongest, List.mem_map.mpr ⟨_, hread _ rfl, rfl⟩, ?_,
      ?_, fun _ => ?_⟩
    · exact fun kind text => ⟨nofun, fun h => absurd h.2 (hnone kind)⟩
    · exact ⟨fun _ => hnone, fun _ => rfl⟩
    · exact List.mem_filterMap.mpr ⟨_, hread _ rfl, rfl⟩

/-- An assignment of an imaginary number in hexadecimal digits, with an
underscore and a signed exponent. -/
def samplePower : String :=
  "v = 0x_1.8P-3i+1"

/-- In the sample the sign of the exponent belongs to the number, the other
sign does not. -/
theorem number_readAs_samplePower :
    ReadAs samplePower 4 "0x_1.8P-3i".toList (.literal .imaginary "0x_1.8P-3i") := by
  have hplace : Lexeme.ComesTo samplePower.toList "v = ".toList
      "0x_1.8P-3i+1".toList :=
    ⟨[⟨.ident, ['v']⟩, ⟨.blank, [' ']⟩, ⟨.op .assign, ['=']⟩, ⟨.blank, [' ']⟩], by
      decide +kernel, rfl, rfl⟩
  obtain ⟨run, tok, hlongest, hread⟩ := number_readAs hplace ⟨'0', _, rfl, Or.inl rfl⟩
  obtain rfl : run = "0x_1.8P-3i".toList := hlongest.eq (Number.longestRun_munch _)
  have hkind : Number.Denotes "0x_1.8P-3i".toList .imaginary :=
    (Number.classify_eq_some_iff hlongest.isRun.signsAttached).mp (by decide)
  obtain rfl := (hread.literal_iff .imaginary "0x_1.8P-3i").mpr ⟨rfl, hkind⟩
  exact hread

end GoInventory
