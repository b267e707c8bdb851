/-
  The three modes of a session.

  * `lastExact`: the exact form of the last equation solved, told from the commands alone.
  * `State.InMode`: nothing to show; the answer to the entry; or the error of the entry, with the
    exact form of the last result behind it.  The state shows which one it is in (`InMode.eq_mode`).
  * `Tracks.after`: every command leads from a mode to a mode, whichever they are.  Hence a session
    is always in one of them (`mode_of_lines`), and never shows what belongs to another entry.
  * `Session.exists_final_eq`: the states meant are those that a session on bytes goes through.
-/
import Mathlib.Logic.ExistsUnique
import OneUnknown.Proofs.Session.Entry

namespace OneUnknown

namespace Settings

theorem withDigits_self (s : Settings) : s.withDigits s.digits = s := by
  have hd := s.digits_le
  obtain ⟨d, p, _, _, _⟩ := s
  simp only [withDigits, mk.injEq]
  exact ⟨Nat.min_eq_left hd, trivial⟩

theorem withDigits_eq_of_passes_eq {s t : Settings} (h : t.passes = s.passes) (d : Nat) :
    t.withDigits d = s.withDigits d := by
  obtain ⟨_, p, _, _, _⟩ := s
  obtain ⟨_, q, _, _, _⟩ := t
  obtain rfl : q = p := h
  rfl

end Settings

/-! ## The last result -/

/-- The exact form of the equation solved last, given the commands from the last one back; nothing
    if none was solved since the results were cleared.  Since then the number of passes is the
    same, and the number of places does not show in an exact form. -/
def lastExact (settings : Settings) : List Command → String
  | [] => ""
  | .clearResults :: _ => ""
  | .reset :: _ => ""
  | .solve text :: older =>
    match Answer.ofText settings text with
    | .ok a => a.exact
    | .error _ => lastExact settings older
  | .digits _ :: older => lastExact settings older
  | .toggleWorking :: older => lastExact settings older
  | .quit :: older => lastExact settings older
  | .blank :: older => lastExact settings older
  | .unknown _ :: older => lastExact settings older

theorem lastExact_eq_of_passes_eq {s t : Settings} (h : t.passes = s.passes)
    (commands : List Command) : lastExact t commands = lastExact s commands := by
  induction commands with
  | nil => rfl
  | cons c older ih =>
    cases c with
    | solve text =>
      rw [lastExact, lastExact, Answer.ofText_eq_map h]
      cases Answer.ofText s text with
      | ok a => rfl
      | error e => exact ih
    | clearResults => rfl
    | reset => rfl
    | digits n => exact ih
    | toggleWorking => exact ih
    | quit => exact ih
    | blank => exact ih
    | unknown line => exact ih

/-! ## Modes -/

/-- What a session has to show. -/
inductive Mode where
  | blank
  | answered
  | refused
  deriving DecidableEq, Repr

namespace State

/-- The state is in a mode, where `exact` is the exact form of the last result.  The answer may
    have been given with another number of places than is set now. -/
def InMode (exact : String) (s : State) : Mode → Prop
  | .blank => s.exact = "" ∧ s.readingText = "" ∧ s.hasReading = false ∧ s.error = "" ∧
      s.working = {}
  | .answered => s.error = "" ∧ s.hasReading = true ∧ ∃ d ≤ maxDigits, ∃ a,
      Answer.ofText (s.settings.withDigits d) s.entry = .ok a ∧
        s.exact = a.exact ∧ s.readingText = a.reading ∧ s.working = a.working
  | .refused => ∃ e, Answer.ofText s.settings s.entry = .error e ∧ s.error = e.message ∧
      s.error ≠ "" ∧ s.readingText = "" ∧ s.hasReading = false ∧ s.working = {} ∧
      s.exact = exact

variable {s : State} {exact : String} {m : Mode}

/-- The mode as it shows: an error decides, then a reading. -/
def mode (s : State) : Mode :=
  if s.hasError then .refused else if s.hasReading then .answered else .blank

/-- No state is in two modes. -/
theorem InMode.eq_mode (h : s.InMode exact m) : m = s.mode := by
  cases m with
  | blank =>
    obtain ⟨-, -, hr, he, -⟩ := h
    simp [mode, hasError, he, hr]
  | answered =>
    obtain ⟨he, hr, -⟩ := h
    simp [mode, hasError, he, hr]
  | refused =>
    obtain ⟨e, -, -, hne, -⟩ := h
    simp [mode, hasError, hne]

/-- Neither the number of places nor the visibility of the working changes the mode. -/
theorem InMode.withSettings {settings : Settings} (hp : settings.passes = s.settings.passes)
    (showWorking : Bool) (h : s.InMode exact m) :
    InMode exact { s with settings, showWorking } m := by
  cases m with
  | blank => exact h
  | answered =>
    obtain ⟨he, hr, d, hd, a, ha, hshown⟩ := h
    exact ⟨he, hr, d, hd, a, (Settings.withDigits_eq_of_passes_eq hp d).symm ▸ ha, hshown⟩
  | refused =>
    obtain ⟨e, he, hshown⟩ := h
    refine ⟨e, ?_, hshown⟩
    show Answer.ofText settings s.entry = .error e
    rw [Answer.ofText_eq_map hp, he]
    rfl

/-- An equation that is entered is answered or refused. -/
theorem inMode_enter (s : State) (text : String) :
    (∃ a, Answer.ofText s.settings text = .ok a ∧ (s.enter text).exact = a.exact ∧
      ∀ exact, (s.enter text).InMode exact .answered) ∨
    ∃ e, Answer.ofText s.settings text = .error e ∧ (s.enter text).exact = s.exact ∧
      (s.enter text).InMode s.exact .refused := by
  cases h : Answer.ofText s.settings text with
  | ok a =>
    rw [enter_of_ok h]
    have ha : Answer.ofText (s.settings.withDigits s.settings.digits) text = .ok a := by
      rw [Settings.withDigits_self]
      exact h
    exact .inl ⟨a, rfl, rfl, fun _ =>
      ⟨rfl, rfl, s.settings.digits, s.settings.digits_le, a, ha, rfl, rfl, rfl⟩⟩
  | error e =>
    rw [enter_of_error h]
    exact .inr ⟨e, rfl, rfl, e, h, rfl, e.message_ne_empty, rfl, rfl, rfl, rfl⟩

/-! ## Commands -/

/-- The state after a command; the end of a session leaves it as it is. -/
def after (s : State) (c : Command) : State :=
  match s.execute c with
  | some (_, s') => s'
  | none => s

/-- The state is in a mode, given the commands from the last one back. -/
def Tracks (s : State) (commands : List Command) : Prop :=
  s.exact = lastExact s.settings commands ∧ ∃ m, s.InMode (lastExact s.settings commands) m

theorem tracks_of_blank {commands : List Command} (hl : lastExact s.settings commands = "")
    (h : s.InMode "" .blank) : s.Tracks commands := by
  rw [Tracks, hl]
  exact ⟨h.1, .blank, h⟩

/-- **Every command leads from a mode to a mode.** -/
theorem Tracks.after {commands : List Command} (h : s.Tracks commands) (c : Command) :
    (s.after c).Tracks (c :: commands) := by
  obtain ⟨hexact, m, hm⟩ := h
  cases c with
  | solve text =>
    show (s.enter text).Tracks (.solve text :: commands)
    rw [Tracks, settings_enter, lastExact]
    -- an answer is the last result from now on, an error leaves the last result behind it
    rcases s.inMode_enter text with ⟨a, ha, hx, hmode⟩ | ⟨e, he, hx, hmode⟩
    · rw [ha]
      exact ⟨hx, .answered, hmode _⟩
    · rw [hexact] at hx hmode
      rw [he]
      exact ⟨hx, .refused, hmode⟩
  | digits n =>
    have hp : (s.settings.withDigits n).passes = s.settings.passes := rfl
    have hl : lastExact (s.settings.withDigits n) (.digits n :: commands) =
        lastExact s.settings commands := lastExact_eq_of_passes_eq hp commands
    show (s.setDigits n).Tracks (.digits n :: commands)
    rw [Tracks, setDigits, hl]
    exact ⟨hexact, m, hm.withSettings hp s.showWorking⟩
  | toggleWorking => exact ⟨hexact, m, hm.withSettings rfl (!s.showWorking)⟩
  | clearResults => exact tracks_of_blank rfl ⟨rfl, rfl, rfl, rfl, rfl⟩
  | reset => exact tracks_of_blank rfl ⟨rfl, rfl, rfl, rfl, rfl⟩
  | quit => exact ⟨hexact, m, hm⟩
  | blank => exact ⟨hexact, m, hm⟩
  | unknown line => exact ⟨hexact, m, hm⟩

theorem Tracks.foldl {older : List Command} (h : s.Tracks older) (commands : List Command) :
    (commands.foldl State.after s).Tracks (commands.reverse ++ older) := by
  induction commands generalizing s older with
  | nil => exact h
  | cons c commands ih =>
    rw [List.foldl_cons, List.reverse_cons, List.append_assoc]
    exact ih (h.after c)

/-- What is shown in a mode belongs to the entry. -/
theorem InMode.view (h : s.InMode exact m) :
    s.view = State.view { showWorking := s.showWorking } ∨
    (∃ d ≤ maxDigits, ∃ a, Answer.ofText (s.settings.withDigits d) s.entry = .ok a ∧
      s.view = a.view s.showWorking) ∨
    ∃ e, Answer.ofText s.settings s.entry = .error e ∧ s.view = e.view := by
  cases m with
  | blank =>
    obtain ⟨hx, ht, hr, he, hw⟩ := h
    refine .inl ?_
    simp only [State.view, hasError, viewResults, reading, hx, ht, hr, he, hw]
  | answered =>
    obtain ⟨he, hr, d, hd, a, ha, hx, ht, hw⟩ := h
    have hreading : s.reading = some a.reading := by rw [reading, if_pos hr, ht]
    exact .inr (.inl ⟨d, hd, a, ha, view_of_answer he hx hreading hw⟩)
  | refused =>
    obtain ⟨e, he, hmsg, -⟩ := h
    exact .inr (.inr ⟨e, he, view_of_error hmsg⟩)

/-- **A session is in exactly one mode after any lines**, within the bounds of the settings, and
    shows nothing, the answer to its entry, or the error of its entry. -/
theorem mode_of_lines (digits passes : Nat) (showWorking : Bool) (lines : List String) :
    let commands := lines.map Command.ofLine
    let s := commands.foldl State.after (State.start (.clamp digits passes) showWorking)
    (1 ≤ s.settings.passes ∧ s.settings.passes ≤ 1024 ∧ s.settings.digits ≤ 200) ∧
    (∃! m, s.InMode (lastExact s.settings commands.reverse) m) ∧
    (s.view = State.view { showWorking := s.showWorking } ∨
      (∃ d ≤ 200, ∃ a, Answer.ofText (s.settings.withDigits d) s.entry = .ok a ∧
        s.view = a.view s.showWorking) ∨
      ∃ e, Answer.ofText s.settings s.entry = .error e ∧ s.view = e.view) := by
  intro commands s
  have hstart : (State.start (.clamp digits passes) showWorking).Tracks [] :=
    tracks_of_blank rfl ⟨rfl, rfl, rfl, rfl, rfl⟩
  obtain ⟨-, m, hm⟩ := hstart.foldl commands
  rw [List.append_nil] at hm
  exact ⟨⟨s.settings.one_le_passes, s.settings.passes_le, s.settings.digits_le⟩,
    ⟨m, hm, fun m' hm' => hm'.eq_mode.trans hm.eq_mode.symm⟩, hm.view⟩

end State

/-- The state that a session ends with is reached by the lines that it has answered. -/
theorem Session.exists_final_eq (s : State) (lines : List (List UInt8)) :
    ∃ texts : List String,
      (lines.take (run s lines).answers.length).map Text.decode? = texts.map some ∧
      (run s lines).final = (texts.map Command.ofLine).foldl State.after s := by
  induction lines generalizing s with
  | nil => exact ⟨[], rfl, rfl⟩
  | cons line lines ih =>
    cases h : step s line with
    | error ending =>
      rw [run_cons_of_error h]
      exact ⟨[], rfl, rfl⟩
    | ok answered =>
      obtain ⟨answer, t⟩ := answered
      obtain ⟨text, hd, he⟩ := step_eq_ok_iff.1 h
      obtain ⟨texts, htexts, hfinal⟩ := ih t
      have hafter : s.after (Command.ofLine text) = t := by rw [State.after, he]
      rw [run_cons_of_ok h]
      refine ⟨text :: texts, ?_, ?_⟩
      · rw [List.length_cons, List.take_succ_cons, List.map_cons, hd, htexts, List.map_cons]
      · rw [List.map_cons, List.foldl_cons, hafter]
        exact hfinal

end OneUnknown
