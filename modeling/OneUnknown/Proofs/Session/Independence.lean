/-
  What a session answers does not depend on the results before.

  * `State.SameSettings`: the settings and the visibility of the working are the same; the entry,
    the results, the error and the working may be anything.
  * `Session.step_cases`: a line ends the session in both states or in neither, with the same
    answer, and leads to states that are related again.
  * `Session.answers_eq_of_sameSettings`: so the same lines have the same answers.
-/
import OneUnknown.Proofs.Session.Entry

namespace OneUnknown

namespace State

/-- The settings and the visibility of the working are the same. -/
structure SameSettings (s s' : State) : Prop where
  settings : s.settings = s'.settings
  showWorking : s.showWorking = s'.showWorking

variable {s s' : State}

theorem SameSettings.enter (h : s.SameSettings s') (text : String) :
    (s.enter text).SameSettings (s'.enter text) := by
  constructor
  · rw [settings_enter, settings_enter, h.settings]
  · rw [showWorking_enter, showWorking_enter, h.showWorking]

theorem SameSettings.setDigits (h : s.SameSettings s') (n : Nat) :
    (s.setDigits n).SameSettings (s'.setDigits n) :=
  ⟨congrArg (·.withDigits n) h.settings, h.showWorking⟩

theorem SameSettings.toggleWorking (h : s.SameSettings s') :
    s.toggleWorking.SameSettings s'.toggleWorking :=
  ⟨h.settings, congrArg (!·) h.showWorking⟩

theorem SameSettings.clearResults (h : s.SameSettings s') :
    s.clearResults.SameSettings s'.clearResults :=
  ⟨h.settings, h.showWorking⟩

/-- **A command is carried out alike**: it ends the session in both states, or it shows the same
    and leads to states that are related again. -/
theorem SameSettings.execute_cases (h : s.SameSettings s') (c : Command) :
    (s.execute c = none ∧ s'.execute c = none) ∨
      ∃ answer t t', s.execute c = some (answer, t) ∧ s'.execute c = some (answer, t') ∧
        t.SameSettings t' := by
  cases c with
  | solve text =>
    refine .inr ⟨_, _, _, rfl, ?_, h.enter text⟩
    rw [view_enter, h.settings, h.showWorking, ← view_enter]
    rfl
  | digits n =>
    refine .inr ⟨_, _, _, rfl, ?_, h.setDigits n⟩
    rw [(h.setDigits n).settings]
    rfl
  | toggleWorking =>
    refine .inr ⟨_, _, _, rfl, ?_, h.toggleWorking⟩
    rw [h.toggleWorking.showWorking]
    rfl
  | clearResults => exact .inr ⟨_, _, _, rfl, rfl, h.clearResults⟩
  | reset => exact .inr ⟨_, _, _, rfl, rfl, rfl, rfl⟩
  | quit => exact .inl ⟨rfl, rfl⟩
  | blank => exact .inr ⟨_, _, _, rfl, rfl, h⟩
  | unknown line => exact .inr ⟨_, _, _, rfl, rfl, h⟩

end State

namespace Session

variable {s s' : State}

/-- A line is answered alike, whether it is text or not. -/
theorem step_cases (h : s.SameSettings s') (line : List UInt8) :
    (∃ ending, step s line = .error ending ∧ step s' line = .error ending) ∨
      ∃ answer t t', step s line = .ok (answer, t) ∧ step s' line = .ok (answer, t') ∧
        t.SameSettings t' := by
  cases hd : Text.decode? line with
  | none => exact .inl ⟨_, step_of_not_text hd, step_of_not_text hd⟩
  | some text =>
    rcases h.execute_cases (Command.ofLine text) with
      ⟨hn, hn'⟩ | ⟨answer, t, t', ht, ht', hst⟩
    · exact .inl ⟨_, step_of_quit hd hn, step_of_quit hd hn'⟩
    · exact .inr ⟨answer, t, t', step_eq_ok_iff.2 ⟨text, hd, ht⟩,
        step_eq_ok_iff.2 ⟨text, hd, ht'⟩, hst⟩

/-- **The answers depend on the settings and the lines only.**  Two sessions on the same lines give
    the same answers and end at the same line, in the same way and with the same settings, whatever
    else is in the states that they start from. -/
theorem answers_eq_of_sameSettings (h : s.SameSettings s') (lines : List (List UInt8)) :
    (run s lines).answers = (run s' lines).answers ∧
      (run s lines).ending = (run s' lines).ending ∧
      (run s lines).final.SameSettings (run s' lines).final := by
  induction lines generalizing s s' with
  | nil => exact ⟨rfl, rfl, h⟩
  | cons line lines ih =>
    rcases step_cases h line with ⟨ending, he, he'⟩ | ⟨answer, t, t', ht, ht', hst⟩
    · rw [run_cons_of_error he, run_cons_of_error he']
      exact ⟨rfl, rfl, h⟩
    · obtain ⟨hanswers, hending, hfinal⟩ := ih hst
      rw [run_cons_of_ok ht, run_cons_of_ok ht']
      exact ⟨congrArg (answer :: ·) hanswers, hending, hfinal⟩

/-- The state after `2k = 10` and then `2k = ` forgets both. -/
theorem answers_eq_of_sameSettings_stale :
    let stale : State := {
      entry := "2k = ", exact := "k = 5", readingText := "5", hasReading := true
      error := Error.unexpectedEnd.message
      working := { before := "2k = 10", steps := ["réduction : 2k = 10", "solution : k = 5"] } }
    let lines := ["k = 5x", ":digits 2", ":clr", ":q", "3q = 1"].map (·.toUTF8.data.toList)
    State.SameSettings {} stale ∧ (run {} lines).answers = (run stale lines).answers ∧
      (run {} lines).ending = (run stale lines).ending ∧
      (run {} lines).final.SameSettings (run stale lines).final := by
  intro stale lines
  have h : State.SameSettings {} stale := ⟨rfl, rfl⟩
  exact ⟨h, answers_eq_of_sameSettings h lines⟩

end Session

end OneUnknown
