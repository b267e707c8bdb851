/-
  Decimal numbers in both directions, exactly while there are fewer than `2 ^ 32` places.

  * `Decimal.value?` reads `D`, `D.F` and `.F`, where `D` and `F` are runs of ASCII digits with at
    least one digit, and nothing else: a point asks for digits behind it, a sign is not part of a
    number.
  * `Decimal.reading` writes a rational cut off, toward zero, after a given number of places.
-/
import OneUnknown.Error

namespace OneUnknown.Decimal

/-- A power of ten, whose exponent is cut down to 32 bits: from `2 ^ 32` on it is another power
    than the one that is asked for. -/
def tenTo (n : Nat) : Nat :=
  Nat.pow 10 (n % UInt32.size)

/-! ## Reading -/

/-- Nothing but ASCII digits. -/
def allDigits (cs : List Char) : Bool :=
  cs.all Char.isDigit

/-- The number written by a run of digits. -/
def natural (cs : List Char) : Nat :=
  Nat.ofDigitChars 10 cs 0

/-- The value of a decimal number: the digits before the point, shifted by the power of ten that
    the point stands for, and those behind it, over that power. -/
def value? (cs : List Char) : Option Rat :=
  let whole := cs.takeWhile (· ≠ '.')
  match cs.dropWhile (· ≠ '.') with
  | [] => if whole ≠ [] ∧ allDigits whole then some (mkRat (natural whole) 1) else none
  | _ :: fraction =>
    if allDigits whole ∧ fraction ≠ [] ∧ allDigits fraction then
      let scale := tenTo fraction.length
      some (mkRat (natural whole * scale + natural fraction) scale)
    else none

/-- The value of a decimal number, or the refusal of its text. -/
def read (cs : List Char) : Except Error Rat :=
  match value? cs with
  | some q => .ok q
  | none => .error (.invalidNumber (String.ofList cs))

theorem read_nil : read [] = .error (.invalidNumber "") := rfl

/-! ## Writing -/

/-- `n` in decimal digits, with zeros in front up to `width`. -/
def padded (width n : Nat) : List Char :=
  let ds := Nat.toDigits 10 n
  List.replicate (width - ds.length) '0' ++ ds

/-- The magnitude `n / tenTo places`, with `places` digits after the point and no point if there are
    none. -/
def magnitudeText (n places : Nat) : List Char :=
  if places = 0 then Nat.toDigits 10 n
  else Nat.toDigits 10 (n / tenTo places) ++ '.' :: padded places (n % tenTo places)

/-- The number `n / tenTo places`, after a minus sign if it is negative. -/
def scaledText (n : Int) (places : Nat) : List Char :=
  if n < 0 then '-' :: magnitudeText n.natAbs places else magnitudeText n.natAbs places

/-- `q * tenTo places`, cut off toward zero. -/
def scaled (q : Rat) (places : Nat) : Int :=
  (q.num * tenTo places).tdiv q.den

/-- A rational with `places` digits after the point, cut off toward zero. -/
def reading (q : Rat) (places : Nat) : List Char :=
  scaledText (scaled q places) places

end OneUnknown.Decimal
