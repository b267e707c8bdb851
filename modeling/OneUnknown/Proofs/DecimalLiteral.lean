/-
  Which texts are decimal numbers, and of which value.

  * `Digits cs`: one digit or more, none but `0` to `9`.  `positional cs` is the number they stand
    for, each digit times the power of ten of its place (`natural_eq_positional`).
  * `Literal cs q`: the three forms `D`, `D.F` and `.F` with their values.  A text is read iff it
    has one of them, and exactly while fewer than `2 ^ 32` digits stand behind its point
    (`value?_eq_some_iff`).
  * `read_outcome`: any other text is refused as it stands, and zeros in front, or behind a point,
    do not change what is read.
-/
import Mathlib.Algebra.Field.Basic
import Mathlib.Algebra.Field.Rat
import Mathlib.Data.List.TakeWhile
import OneUnknown.Decimal

namespace OneUnknown.Decimal

/-! ## Powers of ten -/

theorem tenTo_of_lt {n : Nat} (h : n < 2 ^ 32) : tenTo n = 10 ^ n := by
  have hn : n % UInt32.size = n := Nat.mod_eq_of_lt h
  rw [tenTo, hn, Nat.pow_eq]

theorem tenTo_pos (n : Nat) : 0 < tenTo n :=
  Nat.pow_pos (by decide)

theorem tenTo_le (n : Nat) : tenTo n ≤ 10 ^ n :=
  Nat.pow_le_pow_right (by decide) (Nat.mod_le n UInt32.size)

/-! ## Digits and places -/

/-- A run of digits that is not empty. -/
def Digits (cs : List Char) : Prop :=
  cs ≠ [] ∧ ∀ c ∈ cs, '0' ≤ c ∧ c ≤ '9'

/-- The number that digits stand for by their places. -/
def positional : List Char → Nat
  | [] => 0
  | c :: cs => (c.toNat - '0'.toNat) * 10 ^ cs.length + positional cs

theorem natural_append (cs ds : List Char) :
    natural (cs ++ ds) = 10 ^ ds.length * natural cs + natural ds := by
  rw [natural, Nat.ofDigitChars_append, Nat.ofDigitChars_eq_ofDigitChars_zero]
  rfl

theorem natural_eq_positional (cs : List Char) : natural cs = positional cs := by
  induction cs with
  | nil => rfl
  | cons c cs ih =>
    rw [positional, ← ih, natural, Nat.ofDigitChars_cons, Nat.ofDigitChars_eq_ofDigitChars_zero,
      Nat.mul_zero, Nat.zero_add, Nat.mul_comm]
    rfl

theorem positional_zeros_append (m : Nat) (cs : List Char) :
    positional (List.replicate m '0' ++ cs) = positional cs := by
  rw [← natural_eq_positional, ← natural_eq_positional, natural_append, natural,
    Nat.ofDigitChars_replicate_zero, Nat.mul_zero, Nat.mul_zero, Nat.zero_add]

theorem positional_zeros (n : Nat) : positional (List.replicate n '0') = 0 := by
  rw [← List.append_nil (List.replicate n '0'), positional_zeros_append, positional]

theorem positional_append_zeros (cs : List Char) (n : Nat) :
    positional (cs ++ List.replicate n '0') = 10 ^ n * positional cs := by
  rw [← natural_eq_positional, natural_append, natural_eq_positional, natural_eq_positional,
    positional_zeros, List.length_replicate, Nat.add_zero]

theorem isDigit_iff {c : Char} : c.isDigit = true ↔ '0' ≤ c ∧ c ≤ '9' := by
  simp only [Char.isDigit, Bool.and_eq_true, decide_eq_true_eq]
  rfl

theorem digits_iff {cs : List Char} : Digits cs ↔ cs ≠ [] ∧ allDigits cs = true := by
  simp only [Digits, allDigits, List.all_eq_true, isDigit_iff]

theorem digit_of_mem_zeros {n : Nat} {c : Char} (h : c ∈ List.replicate n '0') :
    '0' ≤ c ∧ c ≤ '9' := by
  rw [List.eq_of_mem_replicate h]
  decide

theorem Digits.zeros_append {cs : List Char} (h : Digits cs) (n : Nat) :
    Digits (List.replicate n '0' ++ cs) :=
  ⟨fun hn => h.1 (List.append_eq_nil_iff.1 hn).2,
    List.forall_mem_append.2 ⟨fun _ => digit_of_mem_zeros, h.2⟩⟩

theorem Digits.append_zeros {cs : List Char} (h : Digits cs) (n : Nat) :
    Digits (cs ++ List.replicate n '0') :=
  ⟨fun hn => h.1 (List.append_eq_nil_iff.1 hn).1,
    List.forall_mem_append.2 ⟨h.2, fun _ => digit_of_mem_zeros⟩⟩

/-! ## The value of a text -/

theorem mkRat_mul_add (a b : Nat) {s : Nat} (hs : 0 < s) :
    mkRat (a * s + b) s = (a + b / s : Rat) := by
  have h : (s : Rat) ≠ 0 := Nat.cast_ne_zero.2 hs.ne'
  rw [Rat.mkRat_eq_div, Int.cast_add, Int.cast_mul, Int.cast_natCast, Int.cast_natCast,
    Int.cast_natCast, add_div, mul_div_cancel_right₀ _ h]

theorem ne_point {cs : List Char} (h : allDigits cs = true) :
    ∀ c ∈ cs, decide (c ≠ '.') = true := by
  intro c hc
  have hd := List.all_eq_true.1 h c hc
  rw [decide_eq_true_eq]
  rintro rfl
  cases hd

theorem value?_of_allDigits {cs : List Char} (h : allDigits cs = true) (hne : cs ≠ []) :
    value? cs = some ↑(natural cs) := by
  have hp := ne_point h
  rw [value?, List.takeWhile_eq_self_iff.2 hp, List.dropWhile_eq_nil_iff.2 hp]
  simp only [hne, h, Ne, not_false_eq_true, and_self, if_true, Rat.mkRat_one]
  rfl

theorem value?_pointed {cs ds : List Char} (h : allDigits cs = true) :
    value? (cs ++ '.' :: ds) = if ds ≠ [] ∧ allDigits ds then
      some (natural cs + natural ds / (tenTo ds.length : Rat)) else none := by
  have hp := ne_point h
  rw [value?, List.takeWhile_append_of_pos hp, List.dropWhile_append_of_pos hp]
  simp only [List.takeWhile_cons, List.dropWhile_cons, ne_eq, not_true_eq_false, decide_false,
    Bool.false_eq_true, if_false, List.append_nil, h, true_and, mkRat_mul_add _ _ (tenTo_pos _)]

/-- The number of characters behind the first point. -/
def fractionLength (cs : List Char) : Nat :=
  (cs.dropWhile (· ≠ '.')).tail.length

theorem fractionLength_append {cs ds : List Char} (h : allDigits cs = true) :
    fractionLength (cs ++ ds) = fractionLength ds := by
  rw [fractionLength, fractionLength, List.dropWhile_append_of_pos (ne_point h)]

theorem fractionLength_point (ds : List Char) : fractionLength ('.' :: ds) = ds.length := rfl

theorem fractionLength_append_of_mem {cs : List Char} (h : '.' ∈ cs) (ds : List Char) :
    fractionLength (cs ++ ds) = fractionLength cs + ds.length := by
  have hne : cs.dropWhile (· ≠ '.') ≠ [] := by
    intro hnil
    exact of_decide_eq_true (List.dropWhile_eq_nil_iff.1 hnil _ h) rfl
  obtain ⟨p, fs, hd⟩ := List.exists_cons_of_ne_nil hne
  rw [fractionLength, fractionLength, List.dropWhile_append, hd]
  simp

/-! ## Literals -/

/-- A decimal number as it is written, with its value. -/
inductive Literal : List Char → Rat → Prop
  /-- digits -/
  | whole {ds} : Digits ds → Literal ds (positional ds)
  /-- digits, a point, digits -/
  | pointed {ds fs} : Digits ds → Digits fs →
      Literal (ds ++ '.' :: fs) (positional ds + positional fs / 10 ^ fs.length)
  /-- a point, digits -/
  | fraction {fs} : Digits fs → Literal ('.' :: fs) (positional fs / 10 ^ fs.length)

/-- Below `2 ^ 32` digits the unit that is read is the one of the last place. -/
theorem div_tenTo {fs : List Char} (h : fs.length < 2 ^ 32) :
    (positional fs : Rat) / tenTo fs.length = positional fs / 10 ^ fs.length := by
  rw [tenTo_of_lt h, Nat.cast_pow, Nat.cast_ofNat]

/-- One of the three forms has a value, and its own below `2 ^ 32` places. -/
theorem value?_of_literal {cs : List Char} {q : Rat} (h : Literal cs q) :
    ∃ v, value? cs = some v ∧ (fractionLength cs < 2 ^ 32 → v = q) := by
  cases h with
  | whole hd =>
    obtain ⟨hne, hall⟩ := digits_iff.1 hd
    rw [value?_of_allDigits hall hne, natural_eq_positional]
    exact ⟨_, rfl, fun _ => rfl⟩
  | @pointed ds fs hd hf =>
    have hall := (digits_iff.1 hd).2
    rw [value?_pointed hall, if_pos (digits_iff.1 hf), natural_eq_positional,
      natural_eq_positional, fractionLength_append hall, fractionLength_point]
    exact ⟨_, rfl, fun hlen => by rw [div_tenTo hlen]⟩
  | @fraction fs hf =>
    have hv : value? ([] ++ '.' :: fs) = _ := value?_pointed rfl
    rw [if_pos (digits_iff.1 hf), natural_eq_positional, natural_eq_positional, positional,
      Nat.cast_zero, zero_add] at hv
    exact ⟨_, hv, div_tenTo⟩

/-- What has a value has one of the three forms. -/
theorem literal_of_value? {cs : List Char} {v : Rat} (h : value? cs = some v) :
    ∃ q, Literal cs q ∧ (fractionLength cs < 2 ^ 32 → v = q) := by
  have hcs : cs.takeWhile (· ≠ '.') ++ cs.dropWhile (· ≠ '.') = cs :=
    List.takeWhile_append_dropWhile
  have hpoint := List.head?_dropWhile_not (fun c => decide (c ≠ '.')) cs
  unfold value? at h
  generalize cs.takeWhile (· ≠ '.') = ds at h hcs
  generalize cs.dropWhile (· ≠ '.') = rest at h hcs hpoint
  subst hcs
  cases rest with
  | nil =>
    simp only [Option.ite_none_right_eq_some, Option.some.injEq] at h
    obtain ⟨hd, rfl⟩ := h
    rw [Rat.mkRat_one, natural_eq_positional, List.append_nil]
    exact ⟨_, .whole (digits_iff.2 hd), fun _ => rfl⟩
  | cons p fs =>
    obtain rfl : p = '.' := by simpa using hpoint
    simp only [Option.ite_none_right_eq_some, Option.some.injEq] at h
    obtain ⟨⟨hd, hf⟩, rfl⟩ := h
    rw [mkRat_mul_add _ _ (tenTo_pos _), natural_eq_positional, natural_eq_positional,
      fractionLength_append hd, fractionLength_point]
    by_cases hne : ds = []
    · rw [hne, positional, Nat.cast_zero, zero_add]
      exact ⟨_, .fraction (digits_iff.2 hf), div_tenTo⟩
    · exact ⟨_, .pointed (digits_iff.2 ⟨hne, hd⟩) (digits_iff.2 hf),
        fun hlen => by rw [div_tenTo hlen]⟩

/-- **The text of a number is one of the three forms**, and stands for what its digits say. -/
theorem value?_eq_some_iff {cs : List Char} {q : Rat} (hlen : fractionLength cs < 2 ^ 32) :
    value? cs = some q ↔ Literal cs q := by
  constructor
  · intro h
    obtain ⟨q', hl, hq⟩ := literal_of_value? h
    exact hq hlen ▸ hl
  · intro h
    obtain ⟨v, hv, hq⟩ := value?_of_literal h
    rw [hv, hq hlen]

/-! ## Zeros -/

theorem Literal.zeros_append {cs : List Char} {q : Rat} (h : Literal cs q) (m : Nat) :
    Literal (List.replicate m '0' ++ cs) q := by
  cases h with
  | whole hd =>
    rw [← positional_zeros_append m]
    exact .whole (hd.zeros_append m)
  | @pointed ds fs hd hf =>
    rw [← positional_zeros_append m ds, ← List.append_assoc]
    exact .pointed (hd.zeros_append m) hf
  | @fraction fs hf =>
    cases m with
    | zero => exact .fraction hf
    | succ m =>
      -- with a zero in front there are digits before the point, of value zero
      have hd : Digits (List.replicate (m + 1) '0') :=
        ⟨List.cons_ne_nil _ _, fun _ => digit_of_mem_zeros⟩
      have hl := Literal.pointed hd hf
      rwa [positional_zeros, Nat.cast_zero, zero_add] at hl

theorem Literal.append_zeros {cs : List Char} {q : Rat} (h : Literal cs q) (hp : '.' ∈ cs)
    (n : Nat) : Literal (cs ++ List.replicate n '0') q := by
  have hvalue : ∀ fs : List Char, (positional (fs ++ List.replicate n '0') : Rat) /
      10 ^ (fs ++ List.replicate n '0').length = positional fs / 10 ^ fs.length := by
    intro fs
    have hten : (10 : Rat) ^ n ≠ 0 := pow_ne_zero _ (by decide)
    rw [positional_append_zeros, List.length_append, List.length_replicate, pow_add]
    push_cast
    rw [mul_comm ((10 : Rat) ^ fs.length), mul_div_mul_left _ _ hten]
  cases h with
  | whole hd =>
    have hpoint := (hd.2 _ hp).1
    exact absurd hpoint (by decide)
  | @pointed ds fs hd hf =>
    rw [List.append_assoc, List.cons_append, ← hvalue fs]
    exact .pointed hd (hf.append_zeros n)
  | @fraction fs hf =>
    rw [List.cons_append, ← hvalue fs]
    exact .fraction (hf.append_zeros n)

/-! ## Reading -/

theorem read_of_literal {cs : List Char} {q : Rat} (h : Literal cs q)
    (hlen : fractionLength cs < 2 ^ 32) : read cs = .ok q := by
  rw [read, (value?_eq_some_iff hlen).2 h]

/-- **Reading a number is exact, and takes nothing else.**  What is not read is refused with its
    text.  While fewer than `2 ^ 32` characters stand behind the point, what is read is the value
    of the digits, and zeros in front, or behind a point, add nothing. -/
theorem read_outcome (s : String) :
    ((∀ q, ¬ Literal s.toList q) ↔ read s.toList = .error (.invalidNumber s)) ∧
    (fractionLength s.toList < 2 ^ 32 →
      (∀ q, read s.toList = .ok q ↔ Literal s.toList q) ∧
      ∀ q, Literal s.toList q → (∀ m, read (List.replicate m '0' ++ s.toList) = .ok q) ∧
        ('.' ∈ s.toList → ∀ n, fractionLength s.toList + n < 2 ^ 32 →
          read (s.toList ++ List.replicate n '0') = .ok q)) := by
  refine ⟨?_, fun hlen => ⟨fun q => ?_, fun q h => ⟨fun m => ?_, fun hp n hn => ?_⟩⟩⟩
  · cases hv : value? s.toList with
    | none =>
      refine iff_of_true (fun q h => ?_) (by rw [read, hv, String.ofList_toList])
      obtain ⟨v, hsome, -⟩ := value?_of_literal h
      rw [hv] at hsome
      cases hsome
    | some v =>
      obtain ⟨q, hl, -⟩ := literal_of_value? hv
      exact iff_of_false (fun h => h q hl) (by simp [read, hv])
  · rw [← value?_eq_some_iff hlen, read]
    cases value? s.toList <;> simp
  · have hzeros : allDigits (List.replicate m '0') = true := List.all_replicate.trans (by simp)
    exact read_of_literal (h.zeros_append m) (by rwa [fractionLength_append hzeros])
  · refine read_of_literal (h.append_zeros hp n) ?_
    rwa [fractionLength_append_of_mem hp, List.length_replicate]

/-- Zeros on both ends of `7.1`. -/
theorem read_outcome_padded : Literal "7.1".toList (71 / 10) ∧
    read "007.100".toList = .ok (71 / 10) := by
  have hread : read "7.1".toList = .ok (71 / 10) := by decide +kernel
  obtain ⟨hread_iff, hzeros⟩ := (read_outcome "7.1").2 (by decide)
  have hl : Literal "7.1".toList (71 / 10) := (hread_iff _).1 hread
  have hfront : read "007.1".toList = .ok (71 / 10) := (hzeros _ hl).1 2
  obtain ⟨hread_iff', hzeros'⟩ := (read_outcome "007.1").2 (by decide)
  exact ⟨hl, (hzeros' _ ((hread_iff' _).1 hfront)).2 (by decide) 2 (by decide)⟩

/-- The near misses: no digit at all, none behind the point, two points, a sign, an exponent. -/
example : ∀ s ∈ ["", ".", "5.", "1.2.3", "-1", "1e3", "٣"],
    read s.toList = .error (.invalidNumber s) := by
  decide +kernel

end OneUnknown.Decimal
