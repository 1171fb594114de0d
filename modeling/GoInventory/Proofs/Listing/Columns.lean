import GoInventory.Settings
import Mathlib.Data.List.Forall2

/-!
# Written forms of columns

Reading the written form of a column gives the column, and writing the column
gives the text that was read: both follow from what is read at all
(`Column.ofText?_eq_some_iff`). A text is read if it is one of three words, or
`tag[KEY]` with a key that is not empty and has no closing bracket
(`Column.IsSpec`). The brackets of the form belong to it alone, so `tag[]`,
`tag[` and `tag[a]b]` are no forms, and a key may hold anything else, opening
brackets and blanks included.

A list of texts is read text by text, and the first that is no form is the error.
-/

namespace GoInventory.Column

/-- The written forms: three words, and `tag[KEY]`. -/
def IsSpec (spec : String) : Prop :=
  spec = "name" ∨ spec = "type" ∨ spec = "tags" ∨
    ∃ key : String, key ≠ "" ∧ ']' ∉ key.toList ∧ spec = "tag[" ++ key ++ "]"

/-- The column has a written form, which only a bad key can prevent. -/
def IsWritten : Column → Prop
  | tag key => key ≠ "" ∧ ']' ∉ key.toList
  | name | type | tags => True

/-- The key is what stands between the brackets of the form. -/
theorem tagKey?_eq_some_iff {spec key : List Char} :
    tagKey? spec = some key ↔ spec = ['t', 'a', 'g', '['] ++ key ++ [']'] ∧ key ≠ [] ∧
    ']' ∉ key := by
  constructor
  · intro h
    unfold tagKey? at h
    split at h
    next rest =>
      split at h
      next hform =>
        simp only [Bool.and_eq_true, beq_iff_eq, Bool.not_eq_true',
          List.isEmpty_eq_false_iff,
          List.contains_eq_mem, decide_eq_false_iff_not] at hform
        obtain ⟨⟨hlast, hne⟩, hno⟩ := hform
        obtain ⟨front, rfl⟩ := List.getLast?_eq_some_iff.mp hlast
        rw [List.dropLast_concat] at h hne hno
        cases h
        exact ⟨rfl, hne, hno⟩
      next => cases h
    next => cases h
  · rintro ⟨rfl, hne, hno⟩
    simp [tagKey?, hne, hno]

theorem toList_text_tag (key : String) :
    (tag key).text.toList = ['t', 'a', 'g', '['] ++ key.toList ++ [']'] := by
  rw [text, String.toList_append, String.toList_append]
  rfl

/-- The form of a tag column is none of the three words. -/
theorem text_tag_ne (key : String) {word : String}
    (h : word ∈ ["name", "type", "tags"]) : (tag key).text ≠ word := by
  rintro rfl
  have hbracket : (tag key).text.toList[3]? = some '[' := by
    rw [toList_text_tag]
    rfl
  simp only [List.mem_cons, List.not_mem_nil, or_false] at h
  rcases h with h | h | h <;> rw [h] at hbracket <;> exact absurd hbracket (by decide)

theorem ofText?_of_ne_words {spec : String} (hname : spec ≠ "name")
    (htype : spec ≠ "type") (htags : spec ≠ "tags") :
    ofText? spec = (tagKey? spec.toList).map fun key => tag (String.ofList key) := by
  simp [ofText?, hname, htype, htags]

/-- **What is read is what is written.** -/
theorem ofText?_eq_some_iff {spec : String} {column : Column} :
    ofText? spec = some column ↔ column.text = spec ∧ column.IsWritten := by
  constructor
  · intro h
    unfold ofText? at h
    split at h
    next hname =>
      cases h
      exact ⟨(eq_of_beq hname).symm, trivial⟩
    split at h
    next htype =>
      cases h
      exact ⟨(eq_of_beq htype).symm, trivial⟩
    split at h
    next htags =>
      cases h
      exact ⟨(eq_of_beq htags).symm, trivial⟩
    obtain ⟨key, hkey, rfl⟩ := Option.map_eq_some_iff.mp h
    obtain ⟨hform, hne, hno⟩ := tagKey?_eq_some_iff.mp hkey
    refine ⟨String.toList_inj.mp ?_, ?_, ?_⟩
    · rw [hform, toList_text_tag, String.toList_ofList]
    · intro hempty
      exact hne (by simpa using congrArg String.toList hempty)
    · rwa [String.toList_ofList]
  · rintro ⟨rfl, hwritten⟩
    cases column with
    | name | type | tags => rfl
    | tag key =>
      obtain ⟨hne, hno⟩ := hwritten
      have hkey : tagKey? (tag key).text.toList = some key.toList :=
        tagKey?_eq_some_iff.mpr ⟨toList_text_tag key,
          fun hnil => hne (String.toList_eq_nil_iff.mp hnil), hno⟩
      rw [ofText?_of_ne_words (text_tag_ne key (by decide))
        (text_tag_ne key (by decide)) (text_tag_ne key (by decide)),
        hkey, Option.map_some, String.ofList_toList]

theorem isSpec_iff {spec : String} :
    IsSpec spec ↔ ∃ column, ofText? spec = some column := by
  simp only [ofText?_eq_some_iff]
  constructor
  · rintro (rfl | rfl | rfl | ⟨key, hne, hno, rfl⟩)
    · exact ⟨name, rfl, trivial⟩
    · exact ⟨type, rfl, trivial⟩
    · exact ⟨tags, rfl, trivial⟩
    · exact ⟨tag key, rfl, hne, hno⟩
  · rintro ⟨column, rfl, hwritten⟩
    cases column with
    | name => exact Or.inl rfl
    | type => exact Or.inr (Or.inl rfl)
    | tags => exact Or.inr (Or.inr (Or.inl rfl))
    | tag key => exact Or.inr (Or.inr (Or.inr ⟨key, hwritten.1, hwritten.2, rfl⟩))

/-! ## Lists of columns -/

theorem ofTexts_eq_ok_iff {specs : List String} {columns : List Column} :
    ofTexts specs = .ok columns ↔
      List.Forall₂ (fun spec column => ofText? spec = some column) specs columns := by
  induction specs generalizing columns with
  | nil => cases columns <;> simp [ofTexts]
  | cons spec specs ih =>
    rw [ofTexts, List.forall₂_cons_left_iff]
    cases hspec : ofText? spec with
    | none => simp
    | some column =>
      cases hrest : ofTexts specs with
      | error bad =>
        refine ⟨nofun, ?_⟩
        rintro ⟨_, more, -, hmore, -⟩
        rw [ih.mpr hmore] at hrest
        cases hrest
      | ok more =>
        constructor
        · intro h
          cases h
          exact ⟨column, more, rfl, ih.mp hrest, rfl⟩
        · rintro ⟨other, others, hother, hothers, rfl⟩
          cases hother
          cases hrest.symm.trans (ih.mpr hothers)
          rfl

theorem ofTexts_eq_error_iff {specs : List String} {bad : String} :
    ofTexts specs = .error bad ↔
      ∃ before behind, specs = before ++ bad :: behind ∧
        (∀ spec ∈ before, IsSpec spec) ∧ ¬ IsSpec bad := by
  induction specs with
  | nil => simp [ofTexts]
  | cons spec specs ih =>
    rw [ofTexts]
    cases hspec : ofText? spec with
    | none =>
      have hno : ¬ IsSpec spec := by
        rw [isSpec_iff, hspec]
        exact fun h => nomatch h.choose_spec
      constructor
      · intro h
        cases h
        exact ⟨[], specs, rfl, nofun, hno⟩
      · rintro ⟨before, behind, heq, hbefore, -⟩
        cases before with
        | nil =>
          cases heq
          rfl
        | cons first before =>
          cases heq
          exact absurd (hbefore spec List.mem_cons_self) hno
    | some column =>
      have hyes : IsSpec spec := isSpec_iff.mpr ⟨column, hspec⟩
      have hrest :
        (do return column :: (← ofTexts specs) : Except String (List Column))
        = .error bad
          ↔ ofTexts specs = .error bad := by
        cases ofTexts specs with
        | error other => exact Iff.rfl
        | ok columns => exact ⟨nofun, nofun⟩
      refine hrest.trans (ih.trans ?_)
      constructor
      · rintro ⟨before, behind, rfl, hbefore, hbad⟩
        exact ⟨spec :: before, behind, rfl,
          List.forall_mem_cons.mpr ⟨hyes, hbefore⟩, hbad⟩
      · rintro ⟨before, behind, heq, hbefore, hbad⟩
        cases before with
        | nil =>
          cases heq
          exact absurd hyes hbad
        | cons first before =>
          cases heq
          exact ⟨before, behind, rfl,
            fun other hother => hbefore other (List.mem_cons_of_mem _ hother), hbad⟩

/-! ## Reading and writing -/

/-- What reading this text comes to. -/
structure ReadsSpec (spec : String) : Prop where
  accepted_iff : (∃ column, ofText? spec = some column) ↔ IsSpec spec
  text_eq : ∀ column, ofText? spec = some column → column.text = spec
  reread : ∀ column, ofText? spec = some column → ofText? column.text = some column
  unique : ∀ other column, ofText? spec = some column → ofText? other = some column →
    other = spec

/-- What reading these texts comes to. -/
structure ReadsSpecs (specs : List String) : Prop where
  accepted_iff : (∃ columns, ofSpecs specs = .ok columns) ↔
    ∀ spec ∈ specs, IsSpec spec
  in_order : ∀ columns, ofSpecs specs = .ok columns → columns.length = specs.length ∧
    List.Forall₂ (fun spec column => ofText? spec = some column) specs columns
  first_fault : ∀ error, ofSpecs specs = .error error ↔
    ∃ before bad behind, specs = before ++ bad :: behind ∧
      (∀ spec ∈ before, IsSpec spec) ∧ ¬ IsSpec bad ∧
      error = .unknownColumn bad

theorem ofSpecs_eq_ok_iff {specs : List String} {columns : List Column} :
    ofSpecs specs = .ok columns ↔ ofTexts specs = .ok columns := by
  unfold ofSpecs
  cases ofTexts specs with
  | error bad => exact ⟨nofun, nofun⟩
  | ok found => simp

theorem ofSpecs_eq_error_iff {specs : List String} {error : InspectError} :
    ofSpecs specs = .error error ↔ ∃ bad, ofTexts specs = .error bad ∧
    error = .unknownColumn bad := by
  unfold ofSpecs
  cases ofTexts specs with
  | error bad => simp [eq_comm]
  | ok found => simp

/-- **Columns and their written forms correspond.** A text is read as a column
just if it is a form, the form of that column is this text again, and no other
text is read as the same column. A list of texts is read if all of them are
forms, in order; otherwise the error names the first that is none. -/
theorem columns_invert_specs :
    (∀ spec, ReadsSpec spec) ∧ ∀ specs, ReadsSpecs specs := by
  have htext : ∀ {spec column}, ofText? spec = some column → column.text = spec :=
    fun h => (ofText?_eq_some_iff.mp h).1
  refine ⟨fun spec => ⟨isSpec_iff.symm, fun column => htext, ?_, ?_⟩,
    fun specs => ⟨?_, ?_, ?_⟩⟩
  · intro column h
    rwa [htext h]
  · intro other column h hother
    exact (htext hother).symm.trans (htext h)
  · simp only [ofSpecs_eq_ok_iff, ofTexts_eq_ok_iff, isSpec_iff]
    induction specs with
    | nil => simp
    | cons spec specs ih => simp [← ih, List.forall₂_cons_left_iff]
  · intro columns h
    have hall := ofTexts_eq_ok_iff.mp (ofSpecs_eq_ok_iff.mp h)
    exact ⟨hall.length_eq.symm, hall⟩
  · intro error
    rw [ofSpecs_eq_error_iff]
    simp only [ofTexts_eq_error_iff]
    constructor
    · rintro ⟨bad, ⟨before, behind, heq, hbefore, hbad⟩, rfl⟩
      exact ⟨before, bad, behind, heq, hbefore, hbad, rfl⟩
    · rintro ⟨before, bad, behind, heq, hbefore, hbad, rfl⟩
      exact ⟨bad, ⟨before, behind, heq, hbefore, hbad⟩, rfl⟩

end GoInventory.Column
