/-
  The settings of the solver, which lie within their bounds by construction.
-/
namespace OneUnknown

/-- The largest number of decimal places that a reading may have. -/
def maxDigits : Nat := 200

/-- The largest number of passes that may be asked for. -/
def maxPasses : Nat := 1024

/-- The number of decimal places of a reading and the number of passes of the solver. -/
structure Settings where
  digits : Nat
  passes : Nat
  digits_le : digits ≤ maxDigits := by decide
  one_le_passes : 1 ≤ passes := by decide
  passes_le : passes ≤ maxPasses := by decide
  deriving DecidableEq, Repr

namespace Settings

/-- The settings where no others are asked for. -/
def standard : Settings where
  digits := 20
  passes := 16

/-- The settings nearest to what is asked for. -/
def clamp (digits passes : Nat) : Settings where
  digits := min digits maxDigits
  passes := max 1 (min passes maxPasses)
  digits_le := Nat.min_le_right ..
  one_le_passes := Nat.le_max_left ..
  passes_le := Nat.max_le.2 ⟨by decide, Nat.min_le_right ..⟩

/-- The same settings with another number of places, as near as the bound allows. -/
def withDigits (s : Settings) (digits : Nat) : Settings :=
  { s with digits := min digits maxDigits, digits_le := Nat.min_le_right .. }

/-- Settings that are within their bounds stay as they are. -/
theorem clamp_self (s : Settings) : clamp s.digits s.passes = s := by
  have hd := s.digits_le
  have h1 := s.one_le_passes
  have hp := s.passes_le
  obtain ⟨d, p, _, _, _⟩ := s
  simp only [clamp, mk.injEq]
  exact ⟨Nat.min_eq_left hd, by rw [Nat.min_eq_left hp]; exact Nat.max_eq_right h1⟩

end Settings

end OneUnknown
