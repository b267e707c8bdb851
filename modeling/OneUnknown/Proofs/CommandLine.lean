/-
  One equation has one answer, on the command line and as a line of a session.

  * `Session.onBytes_of_equation`: a session on a single line with an equation shows the response
    to the text as it was written, blanks at its ends included.
  * `CommandLine.run_of_equation`: so does the program for an equation among its arguments, on the
    standard output or, if there is no answer, on the error output.
  * `CommandLine.ofArguments_argumentsFor`: any settings can be asked for, and any equation.
  * `CommandLine.response_of_equation`: hence both ways agree.
-/
import OneUnknown.CommandLine
import OneUnknown.Proofs.Lines
import OneUnknown.Proofs.Session.Entry

namespace OneUnknown

/-! ## Lines with an equation -/

/-- What a line asks for does not depend on the blanks at its ends. -/
theorem Command.ofLine_eq_of_trim_eq {line line' : String}
    (h : Text.trim line.toList = Text.trim line'.toList) : ofLine line = ofLine line' :=
  congrArg ofTrimmed h

theorem Command.ofLine_of_equation {text : String} (hne : Text.trim text.toList ≠ [])
    (hcolon : (Text.trim text.toList).head? ≠ some ':') :
    ofLine text = .solve (String.ofList (Text.trim text.toList)) := by
  rw [ofLine]
  unfold ofTrimmed
  split
  · next h => exact absurd h hne
  · next h => exact absurd (by rw [h]; rfl) hcolon
  · rfl

namespace Session

variable {text : String}

/-- A line that is decoded to a text with an equation, up to blanks at its ends. -/
theorem step_of_equation {line : List UInt8} {text' : String}
    (hd : Text.decode? line = some text') (htrim : Text.trim text'.toList = Text.trim text.toList)
    (hne : Text.trim text.toList ≠ []) (hcolon : (Text.trim text.toList).head? ≠ some ':')
    (s : State) : step s line = .ok (response s.settings s.showWorking text,
      s.enter (String.ofList (Text.trim text.toList))) := by
  refine step_eq_ok_iff.2 ⟨text', hd, ?_⟩
  rw [Command.ofLine_eq_of_trim_eq htrim, Command.ofLine_of_equation hne hcolon, ← response_trim,
    ← State.view_enter]
  rfl

/-- **A line with an equation has the response to its text**, whether a line feed ends it or the
    end of the input. -/
theorem onBytes_of_equation (hline : '\n' ∉ text.toList) (hne : Text.trim text.toList ≠ [])
    (hcolon : (Text.trim text.toList).head? ≠ some ':') (s : State) {terminator : List UInt8}
    (ht : terminator ∈ [[], [Text.lineFeed]]) :
    onBytes s (Text.bytes text ++ terminator) =
      ⟨[response s.settings s.showWorking text],
        s.enter (String.ofList (Text.trim text.toList)), .inputEnd⟩ := by
  rcases List.mem_pair.1 ht with rfl | rfl
  · have hnil : text.toList ≠ [] := fun h => hne (by rw [h]; rfl)
    have hstep := step_of_equation (Text.decode?_bytes text) rfl hne hcolon s
    rw [List.append_nil, onBytes, Text.lines_bytes hline hnil, run_cons_of_ok hstep, run]
  · -- the line feed may take a carriage return with it
    obtain ⟨text', hdrop, htrim⟩ := Text.exists_dropReturn_bytes text
    have hstep := step_of_equation (Text.decode?_bytes text') htrim hne hcolon s
    rw [onBytes, Text.lines_bytes_append hline, hdrop, Text.lines_nil, run_cons_of_ok hstep, run]

end Session

namespace CommandLine

/-! ## Arguments with an equation -/

/-- **An equation among the arguments has the response to its text**; an error goes to the error
    output, with code 1. -/
theorem run_of_equation {args : List String} {stdin : List UInt8} {o : Options} {text : String}
    (h : Request.ofArguments {} args = .start o) (ho : o.equation = some text) :
    run args stdin = if (o.state.enter text).hasError
      then { code := 1, stderr := response o.settings o.showWorking text }
      else { code := 0, stdout := response o.settings o.showWorking text } := by
  rw [run, h]
  simp only [ho, once, State.view_enter]
  rfl

/-! ## Arguments for any settings -/

theorem exists_toDigits_eq_cons (n : Nat) :
    ∃ c cs, Nat.toDigits 10 n = c :: cs ∧ c ≠ '+' ∧ c ≠ '-' := by
  have hne : Nat.toDigits 10 n ≠ [] := Nat.toDigits_ne_nil
  obtain ⟨c, cs, h⟩ := List.exists_cons_of_ne_nil hne
  have hc : c.isDigit = true :=
    Nat.isDigit_of_mem_toDigits (by decide) (by decide) (h ▸ List.mem_cons_self)
  refine ⟨c, cs, h, ?_, ?_⟩ <;> rintro rfl <;> cases hc

/-- A number in decimal digits is read back. -/
theorem count?_toDigits {n : Nat} (h : n < UInt64.size) : count? (Nat.toDigits 10 n) = some n := by
  have hd : digits64? (Nat.toDigits 10 n) = some n := by
    have hall : (Nat.toDigits 10 n).all Char.isDigit = true :=
      List.all_eq_true.2 fun c hc => Nat.isDigit_of_mem_toDigits (by decide) (by decide) hc
    rw [digits64?, Nat.ofDigitChars_toDigits (by decide) (by decide)]
    exact if_pos ⟨Nat.toDigits_ne_nil, hall, h⟩
  obtain ⟨c, cs, hcs, hplus, -⟩ := exists_toDigits_eq_cons n
  rw [← hd]
  unfold count?
  split
  · next he => exact absurd (List.cons.inj (hcs.symm.trans he)).1 hplus
  · rfl

/-- A number does not look like an option. -/
theorem ofString_toDigits (n : Nat) : Argument.ofString (String.ofList (Nat.toDigits 10 n)) =
    .plain (String.ofList (Nat.toDigits 10 n)) := by
  obtain ⟨c, cs, hcs, -, hminus⟩ := exists_toDigits_eq_cons n
  rw [Argument.ofString, String.toList_ofList, hcs]
  unfold Argument.ofChars
  split
  · next he => exact absurd (List.cons.inj he).1 hminus
  · next he => exact absurd (List.cons.inj he).1 hminus
  · next he => exact absurd (List.cons.inj he).1 hminus
  · rfl

/-- An option that takes a number, and the number. -/
theorem ofArguments_number {o o' : Options} {arg name : String} {option : NumberOption} {n : Nat}
    (ha : Argument.ofString arg = .long name none) (hn : NumberOption.ofName? name = some option)
    (hset : o.withNumber option (String.ofList (Nat.toDigits 10 n)) = .ok o')
    (args : List String) :
    Request.ofArguments o (arg :: String.ofList (Nat.toDigits 10 n) :: args) =
      Request.ofArguments o' args := by
  rw [Request.ofArguments]
  simp only [ha, hn, ofString_toDigits, hset, Request.ifSet]

/-- Arguments that ask for settings, for the working or not, and for an equation. -/
def argumentsFor (settings : Settings) (showWorking : Bool) (text : String) : List String :=
  "--digits" :: String.ofList (Nat.toDigits 10 settings.digits) ::
    "--passes-max" :: String.ofList (Nat.toDigits 10 settings.passes) ::
      if showWorking then ["--demarche", "--", text] else ["--", text]

/-- **Any settings can be asked for, and any equation.** -/
theorem ofArguments_argumentsFor (settings : Settings) (showWorking : Bool) (text : String) :
    Request.ofArguments {} (argumentsFor settings showWorking text) = .start
      { digits := some settings.digits, passes := some settings.passes, showWorking,
        equation := some text } := by
  have hd : settings.digits < UInt64.size := Nat.lt_of_le_of_lt settings.digits_le (by decide)
  have hp : settings.passes < UInt64.size := Nat.lt_of_le_of_lt settings.passes_le (by decide)
  have hdigits : Options.withNumber {} .digits (String.ofList (Nat.toDigits 10 settings.digits)) =
      .ok { digits := some settings.digits } := by
    rw [Options.withNumber, String.toList_ofList, count?_toDigits hd]
    rfl
  have hpasses : Options.withNumber { digits := some settings.digits } .passes
      (String.ofList (Nat.toDigits 10 settings.passes)) =
        .ok { digits := some settings.digits, passes := some settings.passes } := by
    rw [Options.withNumber, String.toList_ofList, count?_toDigits hp]
    rfl
  rw [argumentsFor, ofArguments_number rfl rfl hdigits, ofArguments_number rfl rfl hpasses]
  cases showWorking <;> rfl

/-! ## Agreement -/

/-- **The command line and a session agree.**  A text with an equation that is fed as one line
    shows what the program prints for it as an argument, under the same settings; the state is then
    in error iff the program ends with code 1, and iff there is no answer. -/
theorem response_of_equation {text : String} (hline : '\n' ∉ text.toList)
    (hne : Text.trim text.toList ≠ []) (hcolon : (Text.trim text.toList).head? ≠ some ':')
    (s : State) :
    ∃ answer after,
      (∀ terminator ∈ [[], [Text.lineFeed]],
        Session.onBytes s (Text.bytes text ++ terminator) = ⟨[answer], after, .inputEnd⟩) ∧
      (∃ args o, Request.ofArguments {} args = .start o ∧ o.equation = some text ∧
        o.settings = s.settings ∧ o.showWorking = s.showWorking) ∧
      (∀ args stdin o, Request.ofArguments {} args = .start o → o.equation = some text →
        o.settings = s.settings → o.showWorking = s.showWorking →
          run args stdin = if after.hasError then { code := 1, stderr := answer }
            else { code := 0, stdout := answer }) ∧
      (after.hasError = true ↔ ∃ e, Answer.ofText s.settings text = .error e) := by
  have herror : (s.enter (String.ofList (Text.trim text.toList))).hasError = true ↔
      ∃ e, Answer.ofText s.settings text = .error e := by
    rw [State.hasError_enter_iff, Answer.ofText_trim]
  refine ⟨_, _, fun terminator => Session.onBytes_of_equation hline hne hcolon s,
    ⟨_, _, ofArguments_argumentsFor s.settings s.showWorking text, rfl,
      Settings.clamp_self s.settings, rfl⟩, ?_, herror⟩
  intro args stdin o hargs ho hset hshow
  have heq : (o.state.enter text).hasError =
      (s.enter (String.ofList (Text.trim text.toList))).hasError := by
    rw [Bool.eq_iff_iff, herror, State.hasError_enter_iff, ← hset]
    rfl
  rw [run_of_equation hargs ho, heq, hset, hshow]

/-- A text with blanks and a carriage return around it, on both ways. -/
theorem response_of_equation_blanks :
    '\n' ∉ "\t 2k = 1/0 \r".toList ∧ Text.trim "\t 2k = 1/0 \r".toList ≠ [] ∧
    (Text.trim "\t 2k = 1/0 \r".toList).head? ≠ some ':' ∧
    ∃ answer after,
      Session.onBytes {} (Text.bytes "\t 2k = 1/0 \r" ++ [Text.lineFeed]) =
        ⟨[answer], after, .inputEnd⟩ ∧
      (run ["--digits=20", "\t 2k = 1/0 \r"] [] =
        if after.hasError then { code := 1, stderr := answer }
        else { code := 0, stdout := answer }) ∧
      (after.hasError = true ↔ ∃ e, Answer.ofText .standard "\t 2k = 1/0 \r" = .error e) := by
  have hline : '\n' ∉ "\t 2k = 1/0 \r".toList := by decide
  have hne : Text.trim "\t 2k = 1/0 \r".toList ≠ [] := by decide
  have hcolon : (Text.trim "\t 2k = 1/0 \r".toList).head? ≠ some ':' := by decide
  obtain ⟨answer, after, hsession, -, hrun, herror⟩ := response_of_equation hline hne hcolon {}
  have hargs : Request.ofArguments {} ["--digits=20", "\t 2k = 1/0 \r"] =
      .start { digits := some 20, equation := some "\t 2k = 1/0 \r" } := by decide +kernel
  exact ⟨hline, hne, hcolon, answer, after, hsession _ (by simp),
    hrun _ [] _ hargs rfl rfl rfl, herror⟩

end CommandLine

end OneUnknown
