import GoInventory.Proofs.Listing.Scripts

/-!
# Listings into a sink that fills up

A sink with a limit keeps the first bytes of all that it is asked to write,
whatever was refused in between (`Sink.Keeps`). One write keeps that, and it
succeeds if it is empty or everything so far fits (`Sink.Keeps.write`). So a row
of records that goes on after failures leaves the start of all encodings behind,
and a listing, which stops at the first failure, leaves the start of what it
would have written.

Only the bytes matter, and not how they are divided into writes: a value and the
character that ends it may be written one after the other
(`Sink.writePieces_eq_write`), and so may the bytes of a whole listing
(`Script.Divides`).
-/

namespace GoInventory

namespace Sink

/-- The sink has this limit, and it was asked to write the bytes `asked` in all. -/
structure Keeps (limit : Nat) (asked : List UInt8) (sink : Sink) : Prop where
  limit_eq : sink.limit = some limit
  written : sink.written = asked.take limit

variable {limit : Nat} {asked : List UInt8} {sink : Sink}

theorem keeps_withLimit (limit : Nat) : (withLimit (some limit)).Keeps limit [] :=
  ⟨rfl, (List.take_nil).symm⟩

/-- **What one write keeps.** A write that is cut off leaves no room for
anything but the empty one. -/
theorem Keeps.write (h : sink.Keeps limit asked) (bytes : List UInt8) :
    (sink.write bytes).2.Keeps limit (asked ++ bytes) ∧
      ((sink.write bytes).1 = true ↔
        bytes = [] ∨ (asked ++ bytes).length ≤ limit) := by
  obtain ⟨written, limit?⟩ := sink
  obtain ⟨rfl, rfl⟩ : limit? = some limit ∧ written = asked.take limit :=
    ⟨h.limit_eq, h.written⟩
  have hroom : limit - (asked.take limit).length = limit - asked.length := by
    rw [List.length_take]
    omega
  unfold Sink.write
  dsimp only
  rw [hroom]
  refine ⟨⟨rfl, List.take_append.symm⟩, ?_⟩
  rw [decide_eq_true_iff, List.length_append, ← List.length_eq_zero_iff]
  omega

/-- Write pieces one after the other, up to the first that fails. -/
def writePieces (sink : Sink) : List (List UInt8) → Bool × Sink
  | [] => (true, sink)
  | piece :: rest =>
    match sink.write piece with
    | (true, after) => after.writePieces rest
    | (false, after) => (false, after)

/-- Pieces that are written one after the other are written like the whole. -/
theorem writePieces_eq_write (pieces : List (List UInt8)) :
    ∀ sink : Sink, sink.writePieces pieces = sink.write pieces.flatten := by
  induction pieces with
  | nil => rintro ⟨written, _ | limit⟩ <;> simp [writePieces, write]
  | cons piece pieces ih =>
    rintro ⟨written, _ | limit⟩
    · show writePieces ⟨written ++ piece, none⟩ pieces = _
      rw [ih]
      simp [write]
    · unfold writePieces write
      dsimp only
      by_cases hfits : piece.length ≤ limit - written.length
      · -- the room for the other pieces is what the first one leaves
        rw [decide_eq_true hfits, List.take_of_length_le hfits]
        dsimp only
        rw [ih, List.flatten_cons, List.take_append, List.take_of_length_le hfits]
        unfold write
        dsimp only
        rw [List.length_append, List.length_append, List.append_assoc, Nat.sub_add_eq]
        congr 1
        rw [decide_eq_decide]
        omega
      · rw [decide_eq_false hfits, List.flatten_cons,
          List.take_append_of_le_length (by omega)]
        dsimp only
        congr 1
        rw [eq_comm, decide_eq_false_iff_not, List.length_append]
        omega

end Sink

/-! ## Records -/

/-- The written form of a record in the pieces that it is made of:
every value and every terminator on its own, or the joined values and
the end of the line. -/
def OutputEncoding.pieces : OutputEncoding → List String → List (List Char)
  | lines, values => [blankJoin values, ['\n']]
  | nulTerminated, values => values.flatMap fun value => [value.toList, ['\x00']]

theorem OutputEncoding.flatten_pieces (encoding : OutputEncoding)
    (values : List String) :
    (encoding.pieces values).flatten = encoding.encode values := by
  cases encoding with
  | lines => simp [pieces, encode]
  | nulTerminated =>
    induction values with
    | nil => rfl
    | cons value values ih =>
      simp only [pieces, encode, List.flatMap_cons, List.flatten_append] at ih ⊢
      rw [ih]
      simp

/-- A record, with the way it is written. -/
abbrev EncodedRecord := OutputEncoding × List String

/-- The bytes of a record. -/
def EncodedRecord.bytes (record : EncodedRecord) : List UInt8 :=
  Text.encode (record.1.encode record.2)

namespace Sink

/-- Write records one after the other, also after one that fails, and tell which
of them succeeded. -/
def writeRecords (sink : Sink) : List EncodedRecord → List Bool × Sink
  | [] => ([], sink)
  | record :: rest =>
    let (ok, after) := sink.writeRecord record.1 record.2
    let (oks, last) := after.writeRecords rest
    (ok :: oks, last)

/-- A record is written like its pieces. -/
theorem writePieces_pieces (sink : Sink) (encoding : OutputEncoding)
    (values : List String) :
    sink.writePieces ((encoding.pieces values).map Text.encode)
      = sink.writeRecord encoding values := by
  have hbytes : ((encoding.pieces values).map Text.encode).flatten
      = Text.encode (encoding.encode values) := by
    rw [← encoding.flatten_pieces]
    induction encoding.pieces values with
    | nil => rfl
    | cons piece pieces ih =>
      rw [List.map_cons, List.flatten_cons, ih, List.flatten_cons, Text.encode_append]
  rw [writePieces_eq_write, hbytes, writeRecord]

/-- **What a row of records keeps.** -/
theorem Keeps.writeRecords (records : List EncodedRecord) :
    ∀ {limit : Nat} {asked : List UInt8} {sink : Sink}, sink.Keeps limit asked →
      (sink.writeRecords records).2.Keeps limit (asked ++ records.flatMap (·.bytes)) ∧
      (sink.writeRecords records).1.length = records.length ∧
      ∀ i, (hi : i < records.length) →
        ((sink.writeRecords records).1[i]? = some true ↔
        records[i].bytes = [] ∨
          (asked ++ (records.take (i + 1)).flatMap (·.bytes)).length ≤ limit) := by
  induction records with
  | nil =>
    intro limit asked sink h
    exact ⟨by rwa [List.flatMap_nil, List.append_nil], rfl, nofun⟩
  | cons record records ih =>
    intro limit asked sink h
    obtain ⟨hafter, hok⟩ := h.write record.bytes
    obtain ⟨hlast, hlength, hoks⟩ := ih hafter
    refine ⟨?_, ?_, ?_⟩
    · rw [List.flatMap_cons, ← List.append_assoc]
      exact hlast
    · exact congrArg (· + 1) hlength
    · intro i hi
      cases i with
      | zero =>
        show some (sink.write record.bytes).1 = some true ↔ _
        simpa using hok
      | succ i =>
        refine (hoks i (Nat.lt_of_succ_lt_succ hi)).trans ?_
        rw [List.getElem_cons_succ, List.take_succ_cons, List.flatMap_cons,
          List.append_assoc]

end Sink

/-! ## Listings -/

namespace Script

/-- The first script writes what the second one writes, perhaps in other pieces,
and ends like it. -/
structure Divides (parts whole : Script) : Prop where
  bytes : parts.bytes = whole.bytes
  failure? : parts.failure? = whole.failure?

end Script

/-- The steps of a listing stop at the first write that does not fit. What was
written by then is the start of what all steps would write. -/
theorem Session.steps_keeps (actions : List Action) :
    ∀ {limit : Nat} {asked : List UInt8} {s : Session},
    s.sink.Keeps limit asked → asked.length ≤ limit →
      (s.steps actions).2.sink.written
        = (asked ++ actions.flatMap (·.bytes)).take limit ∧
      ((s.steps actions).1 = true ↔
        (asked ++ actions.flatMap (·.bytes)).length ≤ limit) := by
  induction actions with
  | nil =>
    intro limit asked s h hfits
    rw [List.flatMap_nil, List.append_nil]
    exact ⟨h.written, iff_of_true rfl hfits⟩
  | cons action actions ih =>
    intro limit asked s h hfits
    cases action with
    | report event => exact ih (s := { s with log := s.log ++ [event] }) h hfits
    | write bytes =>
      obtain ⟨hafter, hok⟩ := h.write bytes
      rw [List.flatMap_cons, ← List.append_assoc]
      unfold steps step
      dsimp only [Action.bytes]
      generalize s.sink.write bytes = result at hafter hok
      obtain ⟨ok, after⟩ := result
      cases ok with
      | true =>
        have hmore : (asked ++ bytes).length ≤ limit := by
          rcases hok.mp rfl with rfl | hle
          · rwa [List.append_nil]
          · exact hle
        exact ih (s := { s with sink := after }) hafter hmore
      | false =>
        have hover : limit < (asked ++ bytes).length := by
          refine Nat.lt_of_not_le fun hle => ?_
          cases hok.mpr (Or.inr hle)
        refine ⟨?_, iff_of_false Bool.false_ne_true ?_⟩
        · show after.written = _
          rw [List.take_append_of_le_length (Nat.le_of_lt hover)]
          exact hafter.written
        · rw [List.length_append]
          omega

/-- How a listing into a sink with a limit ends, beside the same listing into a
sink without one. -/
structure Outcome.Truncates (limit : Nat) (full cut : Outcome) : Prop where
  fits : full.output.length ≤ limit →
    cut.output = full.output ∧ cut.failure? = full.failure?
  overflows : limit < full.output.length →
    cut.output = full.output.take limit ∧ cut.failure? = some .outputFull

theorem Script.Divides.truncates {parts whole : Script} (h : parts.Divides whole)
    (limit : Nat) :
    (whole.play .unlimited).Truncates limit
      (parts.play (.withLimit (some limit))) := by
  obtain ⟨hwritten, hok⟩ :=
    Session.steps_keeps parts.actions (s := .start (.withLimit (some limit)))
    (Sink.keeps_withLimit limit) (Nat.zero_le limit)
  rw [List.nil_append] at hwritten hok
  rw [whole.play_unlimited]
  unfold play
  generalize (Session.start (.withLimit (some limit))).steps parts.actions
    = result at hwritten hok
  obtain ⟨ok, session⟩ := result
  have hbytes : parts.actions.flatMap (·.bytes) = whole.bytes := h.bytes
  rw [hbytes] at hwritten hok
  refine ⟨fun hle => ?_, fun hlt => ?_⟩
  · obtain rfl : ok = true := hok.mpr hle
    exact ⟨hwritten.trans (List.take_of_length_le hle), h.failure?⟩
  · cases ok with
    | true => exact absurd (hok.mp rfl) (Nat.not_le_of_lt hlt)
    | false => exact ⟨hwritten, rfl⟩

/-- **A sink that fills up truncates and never corrupts.** A listing leaves
the start of its output behind and fails if that is not all of it, in whatever
pieces it writes. Records that are written one after the other leave the start
of their encodings behind, and each succeeds if it is empty or if everything
up to it fits. -/
theorem output_truncated (limit : Nat) :
    (∀ fs heading filter paths parts,
      Script.Divides parts (listNames fs heading filter paths) →
      ((listNames fs heading filter paths).play .unlimited).Truncates limit
        (parts.play (.withLimit (some limit)))) ∧
    (∀ fs path typeName settings parts,
      Script.Divides parts (listMembers fs path typeName settings) →
      ((listMembers fs path typeName settings).play .unlimited).Truncates limit
        (parts.play (.withLimit (some limit)))) ∧
    (∀ records : List EncodedRecord,
      ((Sink.withLimit (some limit)).writeRecords records).2.written
        = (records.flatMap (·.bytes)).take limit ∧
      ((Sink.withLimit (some limit)).writeRecords records).1.length = records.length ∧
      ∀ i, (hi : i < records.length) →
        (((Sink.withLimit (some limit)).writeRecords records).1[i]? = some true ↔
          records[i].bytes = [] ∨
            ((records.take (i + 1)).flatMap (·.bytes)).length ≤ limit)) ∧
    ∀ sink encoding values,
      Sink.writePieces sink ((OutputEncoding.pieces encoding values).map Text.encode)
        = sink.writeRecord encoding values := by
  refine ⟨?_, ?_, fun records => ?_, Sink.writePieces_pieces⟩
  · intro fs heading filter paths parts h
    exact h.truncates limit
  · intro fs path typeName settings parts h
    exact h.truncates limit
  · obtain ⟨hkeeps, hlength, hoks⟩ :=
      (Sink.keeps_withLimit limit).writeRecords records
    exact ⟨hkeeps.written, hlength, hoks⟩

/-- A file with a variable under every path. -/
def sampleEverywhere : FileSystem := fun _ =>
  .ok (Text.bytes "package p\nvar v T\n")

/-- What is listed of it, with the name and the end of the line apart. -/
def sampleParts : Script :=
  ⟨[.write (Text.bytes "v"), .write (Text.bytes "\n")], none⟩

theorem output_truncated_sampleParts :
    sampleParts.Divides (listNames sampleEverywhere .values .all ["a.go"]) ∧
    ((listNames sampleEverywhere .values .all ["a.go"]).play .unlimited).Truncates 1
      (sampleParts.play (.withLimit (some 1))) ∧
    ((listNames sampleEverywhere .values .all ["a.go"]).play .unlimited).output.length
      = 2 := by
  have hdivides :
      sampleParts.Divides (listNames sampleEverywhere .values .all ["a.go"]) :=
    ⟨by decide +kernel, by decide +kernel⟩
  exact ⟨hdivides, (output_truncated 1).1 _ _ _ _ _ hdivides, by decide +kernel⟩

end GoInventory
