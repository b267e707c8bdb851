/-
  The reading of a rational is the rational cut off toward zero, and is read back as what it shows.

  * `truncated`: the integer next to a rational toward zero; its magnitude is the floor of the
    magnitude (`abs_truncated`).  It is what a reading writes down (`scaled_eq_truncated`).
  * `Canonical places cs`: digits without a zero too many in front, and `places` digits behind a
    point, which is left out if there are none.  A magnitude is written so, and is read back
    (`canonical_magnitudeText`, `value?_magnitudeText`).
  * `reading_truncates`: so a reading falls short of the rational by less than its last place.
-/
import Mathlib.Data.Rat.Floor
import OneUnknown.Proofs.DecimalLiteral

namespace OneUnknown.Decimal

/-! ## Cutting off -/

/-- The integer next to a rational, toward zero. -/
def truncated (q : Rat) : Int :=
  if 0 ≤ q then ⌊q⌋ else ⌈q⌉

theorem abs_truncated (q : Rat) : |truncated q| = ⌊|q|⌋ := by
  unfold truncated
  split_ifs with h
  · rw [abs_of_nonneg h, abs_of_nonneg (Int.floor_nonneg.2 h)]
  · have hq : q ≤ 0 := (not_le.1 h).le
    rw [abs_of_nonpos hq, abs_of_nonpos (Int.ceil_nonpos.2 hq), Int.floor_neg]

/-- Nothing is cut off an integer, and from anything else something is. -/
theorem truncated_eq_iff {q : Rat} : (truncated q : Rat) = q ↔ ∃ z : Int, q = z := by
  constructor
  · intro h
    exact ⟨truncated q, h.symm⟩
  · rintro ⟨z, rfl⟩
    unfold truncated
    split_ifs
    · rw [Int.floor_intCast]
    · rw [Int.ceil_intCast]

/-- Integer division cuts the quotient off. -/
theorem tdiv_eq_truncated (n : Int) {d : Nat} (hd : 0 < d) : n.tdiv d = truncated (n / d) := by
  have hd' : (0 : Rat) < d := Nat.cast_pos.2 hd
  unfold truncated
  split_ifs with h
  · have hn : 0 ≤ n := by
      have hmul := mul_nonneg h hd'.le
      rwa [div_mul_cancel₀ _ hd'.ne', Int.cast_nonneg_iff] at hmul
    rw [Rat.floor_intCast_div_natCast, Int.tdiv_eq_ediv_of_nonneg hn]
  · have hn : 0 ≤ -n := by
      by_contra hc
      exact h (div_nonneg (Int.cast_nonneg_iff.2 (by omega)) hd'.le)
    have hq : ((-n : Int) : Rat) / d = -(n / d) := by rw [Int.cast_neg, neg_div]
    have hfloor := Rat.floor_intCast_div_natCast (-n) d
    rw [hq, Int.floor_neg] at hfloor
    rw [← neg_inj, hfloor, ← Int.neg_tdiv, Int.tdiv_eq_ediv_of_nonneg hn]

/-- What a reading writes down is cut off toward zero. -/
theorem scaled_eq_truncated (q : Rat) (places : Nat) :
    scaled q places = truncated (q * tenTo places) := by
  have hq : q * tenTo places = ((q.num * tenTo places : Int) : Rat) / q.den := by
    push_cast
    rw [mul_div_right_comm, Rat.num_div_den]
  rw [scaled, tdiv_eq_truncated _ q.den_pos, hq]

/-! ## Digits -/

theorem allDigits_toDigits (n : Nat) : allDigits (Nat.toDigits 10 n) = true :=
  List.all_eq_true.2 fun _ hc => Nat.isDigit_of_mem_toDigits (by decide) (by decide) hc

theorem natural_toDigits (n : Nat) : natural (Nat.toDigits 10 n) = n :=
  Nat.ofDigitChars_toDigits (by decide) (by decide)

/-- No number but zero is written with a zero in front. -/
theorem toDigits_eq_of_head? {n : Nat} (h : (Nat.toDigits 10 n).head? = some '0') :
    Nat.toDigits 10 n = ['0'] := by
  induction n using Nat.strongRecOn with
  | _ n ih =>
    by_cases hn : n < 10
    · rw [Nat.toDigits_of_lt_base hn] at h ⊢
      exact congrArg (fun c => [c]) (Option.some.inj h)
    · rw [Nat.toDigits_of_base_le (by decide) (not_lt.1 hn),
        List.head?_append_of_ne_nil _ Nat.toDigits_ne_nil] at h
      -- the digits in front are those of a smaller number, which would be zero
      have hzero := congrArg natural (ih (n / 10) (by omega) h)
      rw [natural_toDigits] at hzero
      have hdiv : n / 10 = 0 := hzero
      omega

theorem allDigits_padded (width n : Nat) : allDigits (padded width n) = true := by
  rw [padded, allDigits, List.all_append, ← allDigits, ← allDigits, allDigits_toDigits,
    Bool.and_true]
  exact List.all_replicate.trans (by simp)

theorem natural_padded (width n : Nat) : natural (padded width n) = n := by
  rw [padded, natural, Nat.ofDigitChars_append, Nat.ofDigitChars_replicate_zero, Nat.mul_zero]
  exact natural_toDigits n

theorem length_padded {width n : Nat} (hw : 0 < width) (hn : n < tenTo width) :
    (padded width n).length = width := by
  have hlen : (Nat.toDigits 10 n).length ≤ width :=
    (Nat.length_toDigits_le_iff (by decide) hw).2 (hn.trans_le (tenTo_le width))
  rw [padded, List.length_append, List.length_replicate]
  omega

/-! ## Written forms -/

/-- A decimal number without a sign, as it is written with `places` digits behind the point. -/
def Canonical (places : Nat) (cs : List Char) : Prop :=
  ∃ whole fraction, allDigits whole = true ∧ whole ≠ [] ∧
    (whole.head? = some '0' → whole = ['0']) ∧
    allDigits fraction = true ∧ fraction.length = places ∧
    cs = if places = 0 then whole else whole ++ '.' :: fraction

theorem canonical_magnitudeText (n places : Nat) : Canonical places (magnitudeText n places) := by
  by_cases hp : places = 0
  · subst hp
    exact ⟨Nat.toDigits 10 n, [], allDigits_toDigits n, Nat.toDigits_ne_nil, toDigits_eq_of_head?,
      rfl, rfl, rfl⟩
  · have hlt : n % tenTo places < tenTo places := Nat.mod_lt _ (tenTo_pos places)
    refine ⟨Nat.toDigits 10 (n / tenTo places), padded places (n % tenTo places),
      allDigits_toDigits _, Nat.toDigits_ne_nil, toDigits_eq_of_head?, allDigits_padded _ _,
      length_padded (Nat.pos_of_ne_zero hp) hlt, ?_⟩
    rw [magnitudeText, if_neg hp, if_neg hp]

/-- **A written magnitude is read back exactly.** -/
theorem value?_magnitudeText (n places : Nat) :
    value? (magnitudeText n places) = some ((n : Rat) / tenTo places) := by
  by_cases hp : places = 0
  · subst hp
    have hone : (tenTo 0 : Rat) = 1 := Nat.cast_one
    rw [magnitudeText, if_pos rfl, value?_of_allDigits (allDigits_toDigits n) Nat.toDigits_ne_nil,
      natural_toDigits, hone, div_one]
  · have hlt : n % tenTo places < tenTo places := Nat.mod_lt _ (tenTo_pos places)
    have hlen := length_padded (Nat.pos_of_ne_zero hp) hlt
    have hne : padded places (n % tenTo places) ≠ [] := by
      rintro h0
      rw [h0] at hlen
      exact hp hlen.symm
    have hten : (tenTo places : Rat) ≠ 0 := Nat.cast_ne_zero.2 (tenTo_pos places).ne'
    have hn : (n : Rat) = tenTo places * (n / tenTo places : Nat) + (n % tenTo places : Nat) := by
      rw [← Nat.cast_mul, ← Nat.cast_add, Nat.div_add_mod]
    rw [magnitudeText, if_neg hp, value?_pointed (allDigits_toDigits _),
      if_pos ⟨hne, allDigits_padded _ _⟩, hlen, natural_toDigits, natural_padded, hn, add_div,
      mul_div_cancel_left₀ _ hten]

/-! ## Readings -/

/-- The value of a decimal number that may have a minus sign in front. -/
def signedValue? : List Char → Option Rat
  | '-' :: cs => (value? cs).map (- ·)
  | cs => value? cs

theorem signedValue?_of_canonical {places : Nat} {cs : List Char} (h : Canonical places cs) :
    signedValue? cs = value? cs := by
  obtain ⟨whole, fraction, hw, hne, -, -, -, rfl⟩ := h
  obtain ⟨c, ds, rfl⟩ := List.exists_cons_of_ne_nil hne
  have hc : c ≠ '-' := by
    rintro rfl
    cases hw
  unfold signedValue?
  split
  · next heq =>
    split_ifs at heq
    · exact absurd (List.cons.inj heq).1 hc
    · exact absurd (List.cons.inj heq).1 hc
  · rfl

theorem reading_eq (q : Rat) (places : Nat) : reading q places =
    if truncated (q * tenTo places) < 0
    then '-' :: magnitudeText (truncated (q * tenTo places)).natAbs places
    else magnitudeText (truncated (q * tenTo places)).natAbs places := by
  rw [reading, scaled_eq_truncated, scaledText]

theorem signedValue?_reading (q : Rat) (places : Nat) : signedValue? (reading q places) =
    some ((truncated (q * tenTo places) : Rat) / tenTo places) := by
  rw [reading_eq]
  generalize truncated (q * tenTo places) = m
  split_ifs with h
  · have habs : (m.natAbs : Rat) = -m := by rw [Nat.cast_natAbs, abs_of_neg h, Int.cast_neg]
    rw [signedValue?, value?_magnitudeText, habs, Option.map_some, neg_div, neg_neg]
  · have habs : (m.natAbs : Rat) = m := by rw [Nat.cast_natAbs, abs_of_nonneg (not_lt.1 h)]
    rw [signedValue?_of_canonical (canonical_magnitudeText _ _), value?_magnitudeText, habs]

/-- Cut off at the unit `1 / k`, a number loses less than one unit of its magnitude. -/
theorem abs_truncated_div {q k : Rat} (hk : 0 < k) :
    |truncated (q * k) / k| ≤ |q| ∧ |q| < |truncated (q * k) / k| + 1 / k := by
  have habs : |(truncated (q * k) : Rat) / k| = ⌊|q| * k⌋ / k := by
    rw [abs_div, abs_of_pos hk, ← Int.cast_abs, abs_truncated, abs_mul, abs_of_pos hk]
  rw [habs, ← add_div]
  constructor
  · rw [div_le_iff₀ hk]
    exact Int.floor_le _
  · rw [lt_div_iff₀ hk]
    exact Int.lt_floor_add_one _

/-- **A reading is the number cut off toward zero**, in its canonical form.  It is read back as
    what it shows, and is exact iff the number has no more places. -/
theorem reading_truncates (q : Rat) {places : Nat} (hplaces : places < 2 ^ 32) :
    ∃ m cs, m = truncated (q * 10 ^ places) ∧
    reading q places = (if m < 0 then '-' :: cs else cs) ∧ Canonical places cs ∧
    read cs = .ok (|(m : Rat)| / 10 ^ places) ∧
    ∃ v, signedValue? (reading q places) = some v ∧ v = (m : Rat) / 10 ^ places ∧
      |v| ≤ |q| ∧ |q| < |v| + 1 / 10 ^ places ∧ (v = q ↔ ∃ z : Int, q * 10 ^ places = z) := by
  have hunit : (10 : Rat) ^ places = tenTo places := by
    rw [tenTo_of_lt hplaces, Nat.cast_pow, Nat.cast_ofNat]
  have hten : (0 : Rat) < tenTo places := Nat.cast_pos.2 (tenTo_pos places)
  have hread : read (magnitudeText (truncated (q * tenTo places)).natAbs places) =
      .ok (|(truncated (q * tenTo places) : Rat)| / tenTo places) := by
    rw [read, value?_magnitudeText, Nat.cast_natAbs, Int.cast_abs]
  obtain ⟨hle, hlt⟩ := abs_truncated_div (q := q) hten
  rw [hunit]
  refine ⟨_, _, rfl, reading_eq q places, canonical_magnitudeText _ _, hread, _,
    signedValue?_reading q places, rfl, hle, hlt, ?_⟩
  rw [div_eq_iff hten.ne', truncated_eq_iff]

/-- An eighth below zero, cut off after two places. -/
theorem reading_truncates_eighth : (2 : Nat) < 2 ^ 32 ∧ reading (-1 / 8) 2 = "-0.12".toList ∧
    ∃ v, signedValue? (reading (-1 / 8) 2) = some v ∧ |v| ≤ 1 / 8 ∧ 1 / 8 < |v| + 1 / 10 ^ 2 := by
  obtain ⟨m, cs, -, -, -, -, v, hv, -, hle, hlt, -⟩ :=
    reading_truncates (-1 / 8) (by decide : 2 < 2 ^ 32)
  have habs : |(-1 / 8 : Rat)| = 1 / 8 := by norm_num
  rw [habs] at hle hlt
  exact ⟨by decide, by decide +kernel, v, hv, hle, hlt⟩

/-- A reading that comes to zero has no sign. -/
example : reading (-2 / 5) 0 = "0".toList := by
  decide +kernel

end OneUnknown.Decimal
