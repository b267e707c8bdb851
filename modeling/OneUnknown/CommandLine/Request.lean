/-
  What the arguments of the command line ask for.

  * `Argument.ofString` sorts the arguments: `--name` with or without `=value`, a cluster of letters
    behind one dash, `--` itself, and anything else, among which a lone dash.
  * `Request.ofArguments` goes through them from left to right; the first that cannot stand, or
    that asks for the help or the version, decides.  Behind `--` every argument is an equation.
    The value of an option may not look like an option, and nothing may be given twice.
-/
import OneUnknown.Session.Command
import OneUnknown.Settings

namespace OneUnknown.CommandLine

/-! ## Arguments -/

/-- An argument, as it looks on its own. -/
inductive Argument where
  | separator
  | long (name : String) (value : Option String)
  | short (letters : List Char)
  | plain (text : String)
  deriving DecidableEq, Repr

/-- The looks of an argument. -/
def Argument.ofChars : List Char → Argument
  | ['-', '-'] => separator
  | '-' :: '-' :: cs =>
    long (String.ofList (cs.takeWhile (· ≠ '=')))
      (match cs.dropWhile (· ≠ '=') with
       | [] => none
       | _ :: value => some (String.ofList value))
  | '-' :: c :: cs => short (c :: cs)
  | cs => plain (String.ofList cs)

/-- The looks of an argument. -/
def Argument.ofString (s : String) : Argument :=
  ofChars s.toList

/-! ## Requests -/

/-- What is set by the arguments read so far. -/
structure Options where
  digits : Option Nat := none
  passes : Option Nat := none
  showWorking : Bool := false
  equation : Option String := none
  deriving DecidableEq, Repr

/-- Why the arguments are refused. -/
inductive Refusal where
  | unexpected (argument : String)
  | repeated (argument : String)
  | noValue (argument : String)
  | badValue (value argument : String)
  | valueOfFlag (value argument : String)
  deriving DecidableEq, Repr

/-- What the arguments ask for. -/
inductive Request where
  | start (options : Options)
  | version
  | help
  | refuse (reason : Refusal)
  deriving DecidableEq, Repr

/-- The options that take a number. -/
inductive NumberOption where
  | digits
  | passes
  deriving DecidableEq, Repr

namespace NumberOption

/-- The option of a long name. -/
def ofName? : String → Option NumberOption
  | "digits" => some digits
  | "passes-max" => some passes
  | _ => none

/-- An option as the help writes it. -/
def usage : NumberOption → String
  | digits => "--digits <DIGITS>"
  | passes => "--passes-max <PASSES_MAX>"

end NumberOption

namespace Options

/-- The equation of the command line, which is given once. -/
def withEquation (o : Options) (text : String) : Except Refusal Options :=
  match o.equation with
  | some _ => .error (.unexpected text)
  | none => .ok { o with equation := some text }

/-- A number for an option, which is given once. -/
def withNumber (o : Options) (option : NumberOption) (text : String) : Except Refusal Options :=
  match count? text.toList with
  | none => .error (.badValue text option.usage)
  | some n =>
    match option with
    | .digits =>
      if o.digits.isSome then .error (.repeated option.usage) else .ok { o with digits := some n }
    | .passes =>
      if o.passes.isSome then .error (.repeated option.usage) else .ok { o with passes := some n }

/-- The working is shown, which is asked for once. -/
def withWorking (o : Options) : Except Refusal Options :=
  if o.showWorking then .error (.repeated "--demarche") else .ok { o with showWorking := true }

/-- The equation among arguments that are all plain. -/
def withEquations (o : Options) (args : List String) : Except Refusal Options :=
  args.foldlM withEquation o

/-- The settings that the options ask for. -/
def settings (o : Options) : Settings :=
  Settings.clamp (o.digits.getD Settings.standard.digits) (o.passes.getD Settings.standard.passes)

end Options

/-- Go on with the options if they could be set. -/
def Request.ifSet (set : Except Refusal Options) (next : Options → Request) : Request :=
  match set with
  | .ok o => next o
  | .error reason => .refuse reason

/-- What the arguments ask for, given the options set before them. -/
def Request.ofArguments (o : Options) : List String → Request
  | [] => .start o
  | arg :: args =>
    match Argument.ofString arg with
    | .separator => ifSet (o.withEquations args) .start
    | .plain text => ifSet (o.withEquation text) (ofArguments · args)
    | .short ('V' :: _) => .version
    | .short ('h' :: _) => .help
    | .short _ => .refuse (.unexpected arg)
    | .long name value =>
      match NumberOption.ofName? name with
      | some option =>
        match value, args with
        | some text, args => ifSet (o.withNumber option text) (ofArguments · args)
        | none, [] => .refuse (.noValue option.usage)
        | none, text :: args =>
          match Argument.ofString text with
          | .plain _ => ifSet (o.withNumber option text) (ofArguments · args)
          | _ => .refuse (.noValue option.usage)
      | none =>
        match name, value with
        | "demarche", none => ifSet o.withWorking (ofArguments · args)
        | "version", none => .version
        | "help", none => .help
        | "demarche", some text | "version", some text | "help", some text =>
          .refuse (.valueOfFlag text s!"--{name}")
        | _, _ => .refuse (.unexpected arg)

end OneUnknown.CommandLine
