/-
  What a session shows for an equation, and what it keeps of it.

  * `Answer.ofText_trim`: the blanks around a text do not count.  `Answer.ofText_eq_map`: the number
    of decimal places shows in the reading alone.
  * `response`: the view of the answer to a text, or of the reason why there is none.  Entering an
    equation shows the response to it, whatever was shown before (`State.view_enter`); no message
    is empty, so an error is always seen (`State.hasError_enter_iff`).
-/
import OneUnknown.Session.Run

namespace OneUnknown

/-- No message is empty. -/
theorem Error.message_ne_empty (e : Error) : e.message ≠ "" := by
  unfold Error.message
  split <;> simp [toString]

/-! ## Answers -/

namespace Answer

/-- The same answer with another number of decimal places. -/
def withDigits (digits : Nat) (a : Answer) : Answer :=
  { a with reading := String.ofList (Decimal.reading a.solution.value digits) }

/-- **The number of places shows in the reading alone.** -/
theorem ofText_eq_map {s s' : Settings} (h : s'.passes = s.passes) (text : String) :
    ofText s' text = (ofText s text).map (withDigits s'.digits) := by
  rw [ofText, ofText, h]
  cases Token.scan text.toList with
  | error e => rfl
  | ok ts =>
    cases heq : Equation.ofTokens ts with
    | error e => simp only [bind, Except.bind, heq, Except.map]
    | ok eq =>
      cases hr : eq.solve s.passes with
      | error e => simp only [bind, Except.bind, heq, hr, Except.map]
      | ok r =>
        simp only [bind, Except.bind, heq, hr, Except.map, pure, Except.pure]
        rfl

/-- **Blanks at the ends of a text do not count.** -/
theorem ofText_trim (s : Settings) (text : String) :
    ofText s (String.ofList (Text.trim text.toList)) = ofText s text := by
  rw [ofText, ofText, String.toList_ofList, ← Token.scan_filter, Text.filter_trim,
    Token.scan_filter]

/-- An answer as it is shown. -/
def view (showWorking : Bool) (a : Answer) : String :=
  s!"EXACT :   {a.exact}\nLecture : {a.reading}\n" ++ if showWorking then a.working.view else ""

end Answer

/-- An error as it is shown. -/
def Error.view (e : Error) : String :=
  s!"Erreur : {e.message}\n"

/-- What is shown for a text: the answer to it, or the reason why there is none. -/
def response (settings : Settings) (showWorking : Bool) (text : String) : String :=
  match Answer.ofText settings text with
  | .ok a => a.view showWorking
  | .error e => e.view

theorem response_trim (settings : Settings) (showWorking : Bool) (text : String) :
    response settings showWorking (String.ofList (Text.trim text.toList)) =
      response settings showWorking text := by
  rw [response, response, Answer.ofText_trim]

/-! ## Entering an equation -/

namespace State

variable {s : State} {text : String}

theorem enter_of_ok {a : Answer} (h : Answer.ofText s.settings text = .ok a) :
    s.enter text = { s with
      entry := text, exact := a.exact, readingText := a.reading, hasReading := true, error := ""
      working := a.working } := by
  simp only [enter, solve, h]
  rfl

theorem enter_of_error {e : Error} (h : Answer.ofText s.settings text = .error e) :
    s.enter text = { s with
      entry := text, readingText := "", hasReading := false, error := e.message
      working := {} } := by
  simp only [enter, solve, h]
  rfl

@[simp] theorem settings_enter : (s.enter text).settings = s.settings := by
  cases h : Answer.ofText s.settings text with
  | ok a => rw [enter_of_ok h]
  | error e => rw [enter_of_error h]

@[simp] theorem showWorking_enter : (s.enter text).showWorking = s.showWorking := by
  cases h : Answer.ofText s.settings text with
  | ok a => rw [enter_of_ok h]
  | error e => rw [enter_of_error h]

/-- A state without an error shows its result. -/
theorem view_of_answer {a : Answer} (he : s.error = "") (hx : s.exact = a.exact)
    (hr : s.reading = some a.reading) (hw : s.working = a.working) :
    s.view = a.view s.showWorking := by
  simp only [view, hasError, he, viewResults, hx, hr, hw]
  rfl

/-- A state with an error shows nothing else. -/
theorem view_of_error {e : Error} (he : s.error = e.message) : s.view = e.view := by
  have h : s.hasError = true := by
    simp [hasError, he, e.message_ne_empty]
  rw [view, if_pos h, he]
  rfl

/-- **What is shown for an equation depends on the settings only.** -/
theorem view_enter (s : State) (text : String) :
    (s.enter text).view = response s.settings s.showWorking text := by
  unfold response
  cases h : Answer.ofText s.settings text with
  | ok a =>
    rw [enter_of_ok h]
    exact view_of_answer rfl rfl rfl rfl
  | error e =>
    rw [enter_of_error h]
    exact view_of_error rfl

/-- **A state is in error iff there is no answer.** -/
theorem hasError_enter_iff :
    (s.enter text).hasError = true ↔ ∃ e, Answer.ofText s.settings text = .error e := by
  cases h : Answer.ofText s.settings text with
  | ok a => simp [enter_of_ok h, hasError]
  | error e => simp [enter_of_error h, hasError, e.message_ne_empty]

end State

/-! ## Lines -/

namespace Session

variable {s t : State} {line : List UInt8} {lines : List (List UInt8)} {text : String}

theorem step_eq_ok_iff {answer : String} : step s line = .ok (answer, t) ↔
    ∃ text, Text.decode? line = some text ∧
      s.execute (Command.ofLine text) = some (answer, t) := by
  unfold step
  cases Text.decode? line with
  | none => simp
  | some text => cases h : s.execute (Command.ofLine text) <;> simp [h]

theorem step_of_quit (hd : Text.decode? line = some text)
    (he : s.execute (Command.ofLine text) = none) : step s line = .error .quit := by
  simp only [step, hd, he]

theorem step_of_not_text (hd : Text.decode? line = none) : step s line = .error .notText := by
  simp only [step, hd]

theorem run_cons_of_ok {answer : String} (h : step s line = .ok (answer, t)) :
    run s (line :: lines) = { run t lines with answers := answer :: (run t lines).answers } := by
  rw [run, h]

theorem run_cons_of_error {ending : Ending} (h : step s line = .error ending) :
    run s (line :: lines) = ⟨[], s, ending⟩ := by
  rw [run, h]

end Session

end OneUnknown
