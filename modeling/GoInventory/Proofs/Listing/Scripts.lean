import GoInventory.Listing

/-!
# What scripts write and report

A script is a list of steps with the error that ends it, if there is one. What
it writes (`Script.bytes`) and what it reports (`Script.events`) is told from
its steps. For scripts in a row it is put together from the single scripts, up
to the first that ends with an error (`Script.inOrder_append`). A sink without a
limit takes everything, so playing a script into it leaves just that behind
(`Script.play_unlimited`).
-/

namespace GoInventory

namespace Action

/-- The bytes that a step writes. -/
def bytes : Action → List UInt8
  | report _ => []
  | write bytes => bytes

/-- The events that a step reports. -/
def events : Action → List LogEvent
  | report event => [event]
  | write _ => []

end Action

namespace Script

/-- Everything that the script writes. -/
def bytes (script : Script) : List UInt8 :=
  script.actions.flatMap (·.bytes)

/-- Everything that the script reports. -/
def events (script : Script) : List LogEvent :=
  script.actions.flatMap (·.events)

variable {a b : Script} {e : InspectError}

/-! ## Scripts in a row -/

theorem andThen_of_none (h : a.failure? = none) :
    a.andThen b = ⟨a.actions ++ b.actions, b.failure?⟩ := by
  unfold andThen
  rw [h]

theorem andThen_of_some (h : a.failure? = some e) : a.andThen b = a := by
  unfold andThen
  rw [h]

theorem bytes_andThen (h : a.failure? = none) :
    (a.andThen b).bytes = a.bytes ++ b.bytes := by
  rw [andThen_of_none h]
  exact List.flatMap_append

theorem failure?_andThen (h : a.failure? = none) :
    (a.andThen b).failure? = b.failure? := by
  rw [andThen_of_none h]

theorem andThen_assoc (a b c : Script) :
    (a.andThen b).andThen c = a.andThen (b.andThen c) := by
  cases ha : a.failure? with
  | some e => rw [andThen_of_some ha, andThen_of_some ha, andThen_of_some ha]
  | none =>
    cases hb : b.failure? with
    | some e =>
      rw [andThen_of_some hb, andThen_of_some (by rw [failure?_andThen ha, hb])]
    | none =>
      have hab : (a.andThen b).failure? = none := by rw [failure?_andThen ha, hb]
      rw [andThen_of_none hab, andThen_of_none ha, andThen_of_none hb,
        andThen_of_none ha, List.append_assoc]

theorem inOrder_append (as bs : List Script) :
    inOrder (as ++ bs) = (inOrder as).andThen (inOrder bs) := by
  induction as with
  | nil => rfl
  | cons a as ih =>
    show a.andThen (inOrder (as ++ bs))
      = (a.andThen (inOrder as)).andThen (inOrder bs)
    rw [ih, andThen_assoc]

/-- Scripts of which none fails do not fail in a row, and write one
after the other. -/
theorem inOrder_of_none {scripts : List Script} (h : ∀ a ∈ scripts, a.failure? = none) :
    (inOrder scripts).failure? = none ∧
      (inOrder scripts).bytes = scripts.flatMap (·.bytes) := by
  induction scripts with
  | nil => exact ⟨rfl, rfl⟩
  | cons a scripts ih =>
    obtain ⟨hnone, hbytes⟩ := ih fun b hb => h b (List.mem_cons_of_mem a hb)
    have ha := h a List.mem_cons_self
    show (a.andThen (inOrder scripts)).failure? = none ∧
      (a.andThen (inOrder scripts)).bytes = _
    rw [failure?_andThen ha, bytes_andThen ha, hnone, hbytes]
    exact ⟨rfl, rfl⟩

end Script

/-! ## Playing without a limit -/

/-- What a listing has written. -/
def Outcome.output (o : Outcome) : List UInt8 :=
  o.session.sink.written

/-- What a listing has reported. -/
def Outcome.log (o : Outcome) : List LogEvent :=
  o.session.log

theorem Session.steps_unlimited (actions : List Action) :
    ∀ (written : List UInt8) (log : List LogEvent),
    Session.steps ⟨⟨written, none⟩, log⟩ actions
      = (true, ⟨⟨written ++ actions.flatMap (·.bytes), none⟩,
        log ++ actions.flatMap (·.events)⟩) := by
  induction actions with
  | nil => intro written log; simp [steps]
  | cons action actions ih =>
    intro written log
    cases action with
    | report event =>
      show steps ⟨⟨written, none⟩, log ++ [event]⟩ actions = _
      simp [ih, Action.bytes, Action.events]
    | write bytes =>
      show steps ⟨⟨written ++ bytes, none⟩, log⟩ actions = _
      simp [ih, Action.bytes, Action.events]

/-- **A sink without a limit takes the whole script.** -/
theorem Script.play_unlimited (script : Script) :
    script.play .unlimited
      = ⟨script.failure?, ⟨⟨script.bytes, none⟩, script.events⟩⟩ := by
  unfold play Session.start Sink.unlimited
  rw [Session.steps_unlimited]
  rfl

end GoInventory
