/-
  Which lists of tokens are read: those that the grammar derives within the limit.

  * `Expr.ofTokens_eq_ok_iff`: one side of an equation, from soundness and completeness.
  * `Equation.ofTokens_eq_ok_iff` and `Equation.ofTokens_eq_malformed`: an equation is cut at its
    one equals sign before anything else is looked at.
  * `ShortFractions ts`: behind no point stand `2 ^ 32` digits or more.  What is read is then the
    tree of the grammar, whose scale is that of decimal numbers (`Derives.rescale`); from there on
    the unit of the last place is too large (`read_of_longFraction`).
-/
import OneUnknown.Proofs.Grammar.Unambiguity

namespace OneUnknown

open Grammar

/-! ## One side -/

theorem Expr.ofTokens_eq_ok_iff {ts : List Token} {e : Expr} (hp : ∀ t ∈ ts, t.Proper) :
    Expr.ofTokens ts = .ok e ↔
      ∃ k n, Derives Decimal.tenTo (.chain .sum k) ts e n ∧ n ≤ nestingLimit := by
  unfold Expr.ofTokens
  constructor
  · intro h
    split at h
    · cases h
    · next whole hw =>
      split at h
      · next hrest =>
        cases h
        have hv : (Cursor.start ts).Valid := ⟨hp, Nat.zero_le _⟩
        obtain ⟨k, us, n, hd, hts, -, hn⟩ := chain_sound hv hw
        rw [hrest, List.append_nil] at hts
        rw [Cursor.start, Nat.zero_add] at hn
        have hus : us = ts := hts.symm
        exact ⟨k, n, hus ▸ hd, hn⟩
      · cases h
  · rintro ⟨k, n, hd, hn⟩
    have hc : (Cursor.start ts).rest = ts ++ [] := (List.append_nil ts).symm
    have hread := readsTo_of_derives hd hp hc stops_nil (by rwa [Cursor.start, Nat.zero_add])
    obtain ⟨r, hr, rfl, hrest, -⟩ := hread.close stops_nil
    simp only [hr, hrest]

/-! ## Both sides -/

namespace Equation

variable {ts p s : List Token} {t : Token}

/-- The first equals sign cuts a list of tokens. -/
theorem cut_at_equal (hp : ∀ u ∈ p, u.kind ≠ .equal) (ht : t.kind = .equal) :
    (p ++ t :: s).takeWhile (·.kind ≠ .equal) = p ∧
      (p ++ t :: s).dropWhile (·.kind ≠ .equal) = t :: s := by
  have hp' : ∀ u ∈ p, decide (u.kind ≠ .equal) = true := fun u hu => decide_eq_true (hp u hu)
  rw [List.takeWhile_append_of_pos hp', List.dropWhile_append_of_pos hp']
  simp [ht]

theorem exists_cut (h : ∃ t ∈ ts, t.kind = .equal) : ∃ p t s, ts = p ++ t :: s ∧
    t.kind = .equal ∧ ∀ u ∈ p, u.kind ≠ .equal := by
  obtain ⟨u, hu, hk⟩ := h
  have hsome : (ts.find? (·.kind = .equal)).isSome :=
    List.find?_isSome.2 ⟨u, hu, decide_eq_true hk⟩
  obtain ⟨t, ht⟩ := Option.isSome_iff_exists.1 hsome
  obtain ⟨hk, p, s, hts, hp⟩ := List.find?_eq_some_iff_append.1 ht
  exact ⟨p, t, s, hts, of_decide_eq_true hk, by simpa using hp⟩

theorem not_any_equal_iff :
    ¬ s.any (·.kind = .equal) = true ↔ ∀ u ∈ s, u.kind ≠ .equal := by
  simp only [List.any_eq_true, not_exists, not_and, decide_eq_true_eq, ne_eq]

theorem ofTokens_of_cut (hp : ∀ u ∈ p, u.kind ≠ .equal) (ht : t.kind = .equal) :
    Equation.ofTokens (p ++ t :: s) =
      if s.any (·.kind = .equal) then .error .malformedEquation
      else do return ⟨← Expr.ofTokens p, ← Expr.ofTokens s⟩ := by
  obtain ⟨htake, hdrop⟩ := cut_at_equal (s := s) hp ht
  unfold Equation.ofTokens
  split
  · next hnil => simp at hnil
  · rw [htake, hdrop]

theorem ofTokens_of_forall (hne : ts ≠ []) (h : ∀ u ∈ ts, u.kind ≠ .equal) :
    Equation.ofTokens ts = .error .malformedEquation := by
  have hdrop : ts.dropWhile (·.kind ≠ .equal) = [] :=
    List.dropWhile_eq_nil_iff.2 fun u hu => decide_eq_true (h u hu)
  unfold Equation.ofTokens
  split
  · exact absurd rfl hne
  · rw [hdrop]

theorem ofTokens_eq_ok_iff {l r : Expr} : Equation.ofTokens ts = .ok ⟨l, r⟩ ↔
    ∃ p t s, ts = p ++ t :: s ∧ t.kind = .equal ∧ (∀ u ∈ p ++ s, u.kind ≠ .equal) ∧
      Expr.ofTokens p = .ok l ∧ Expr.ofTokens s = .ok r := by
  constructor
  · intro h
    by_cases hex : ∃ t ∈ ts, t.kind = .equal
    · obtain ⟨p, t, s, rfl, ht, hp⟩ := exists_cut hex
      rw [ofTokens_of_cut hp ht] at h
      split_ifs at h with hs
      obtain ⟨l', hl, h⟩ := bind_eq_ok_iff.1 h
      obtain ⟨r', hr, h⟩ := bind_eq_ok_iff.1 h
      cases h
      refine ⟨p, t, s, rfl, ht, ?_, hl, hr⟩
      intro u hu
      rcases List.mem_append.1 hu with hu | hu
      · exact hp u hu
      · exact not_any_equal_iff.1 hs u hu
    · simp only [not_exists, not_and] at hex
      by_cases hne : ts = []
      · subst hne
        cases h
      · rw [ofTokens_of_forall hne hex] at h
        cases h
  · rintro ⟨p, t, s, rfl, ht, hps, hl, hr⟩
    have hp : ∀ u ∈ p, u.kind ≠ .equal := fun u hu => hps u (List.mem_append_left _ hu)
    have hs : ∀ u ∈ s, u.kind ≠ .equal := fun u hu => hps u (List.mem_append_right _ hu)
    rw [ofTokens_of_cut hp ht, if_neg (not_any_equal_iff.2 hs), hl, hr]
    rfl

theorem ofTokens_eq_malformed (hne : ts ≠ []) (h : ts.countP (·.kind = .equal) ≠ 1) :
    Equation.ofTokens ts = .error .malformedEquation := by
  by_cases hex : ∃ t ∈ ts, t.kind = .equal
  · obtain ⟨p, t, s, rfl, ht, hp⟩ := exists_cut hex
    have hp₀ : p.countP (·.kind = .equal) = 0 :=
      List.countP_eq_zero.2 fun u hu => by simpa using hp u hu
    have ht₁ : (t :: s).countP (·.kind = .equal) = s.countP (·.kind = .equal) + 1 :=
      List.countP_cons_of_pos (by simpa using ht)
    rw [List.countP_append, hp₀, ht₁] at h
    have hpos : 0 < s.countP (·.kind = .equal) := by omega
    have hs : s.any (·.kind = .equal) = true := by
      obtain ⟨u, hu, hk⟩ := List.countP_pos_iff.1 hpos
      exact List.any_eq_true.2 ⟨u, hu, hk⟩
    rw [ofTokens_of_cut hp ht, if_pos hs]
  · simp only [not_exists, not_and] at hex
    exact ofTokens_of_forall hne hex

end Equation

/-! ## The scale of decimal numbers -/

namespace Grammar

/-- Behind no point stand `2 ^ 32` digits or more. -/
def ShortFractions (ts : List Token) : Prop :=
  ∀ p fs, p :: fs <:+: ts → p.kind = .dot → (∀ t ∈ fs, t.kind = .digit) → fs.length < 2 ^ 32

theorem ShortFractions.of_infix {us ts : List Token} (h : ShortFractions ts) (hu : us <:+: ts) :
    ShortFractions us :=
  fun p fs hfs => h p fs (hfs.trans hu)

theorem shortFractions_of_length {ts : List Token} (h : ts.length < 2 ^ 32) :
    ShortFractions ts := by
  intro p fs hfs _ _
  have hlen := hfs.length_le
  rw [List.length_cons] at hlen
  omega

section
variable {scale scale' : Nat → Nat} (hscale : ∀ k < 2 ^ 32, scale k = scale' k)
include hscale

theorem Number.rescale {ts : List Token} {q : Rat} (h : Number scale ts q) :
    ∃ q', Number scale' ts q' ∧ (ShortFractions ts → q' = q) := by
  cases h with
  | whole hne hd => exact ⟨_, .whole hne hd, fun _ => rfl⟩
  | @pointed ds p fs hd hp hne hf =>
    refine ⟨_, .pointed hd hp hne hf, fun hshort => ?_⟩
    rw [hscale fs.length (hshort p fs (List.suffix_append ds _).isInfix hp hf)]

/-- **Another scale changes neither what is derived nor the levels**, and not the tree either if
    it is the same for as many digits as there are behind a point. -/
theorem Derives.rescale {k : Construct} {ts : List Token} {e : Expr} {n : Nat}
    (h : Derives scale k ts e n) :
    ∃ e', Derives scale' k ts e' n ∧ (ShortFractions ts → e' = e) := by
  induction h with
  | number hq =>
    obtain ⟨q', hq', heq⟩ := hq.rescale hscale
    exact ⟨_, .number hq', fun hs => by rw [heq hs]⟩
  | @scaled ts q t hq ht =>
    obtain ⟨q', hq', heq⟩ := hq.rescale hscale
    exact ⟨_, .scaled hq' ht,
      fun hs => by rw [heq (hs.of_infix (List.prefix_append ts [t]).isInfix)]⟩
  | letter ht => exact ⟨_, .letter ht, fun _ => rfl⟩
  | atom _ ih =>
    obtain ⟨e', hd, heq⟩ := ih
    exact ⟨e', .atom hd, heq⟩
  | @parens k o ts c e n ho _ hc ih =>
    obtain ⟨e', hd, heq⟩ := ih
    exact ⟨e', .parens ho hd hc, fun hs => heq (hs.of_infix ⟨[o], [c], rfl⟩)⟩
  | unsigned _ ih =>
    obtain ⟨e', hd, heq⟩ := ih
    exact ⟨e', .unsigned hd, heq⟩
  | @plus t ts e n ht _ ih =>
    obtain ⟨e', hd, heq⟩ := ih
    exact ⟨e', .plus ht hd, fun hs => heq (hs.of_infix (List.suffix_cons t ts).isInfix)⟩
  | @minus t ts e n ht _ ih =>
    obtain ⟨e', hd, heq⟩ := ih
    exact ⟨e'.negate, .minus ht hd,
      fun hs => by rw [heq (hs.of_infix (List.suffix_cons t ts).isInfix)]⟩
  | product _ ih =>
    obtain ⟨e', hd, heq⟩ := ih
    exact ⟨e', .product hd, heq⟩
  | factor _ ih =>
    obtain ⟨e', hd, heq⟩ := ih
    exact ⟨e', .factor hd, heq⟩
  | single _ ih =>
    obtain ⟨e', hd, heq⟩ := ih
    exact ⟨e', .single hd, heq⟩
  | @link tier k ts t us op l r n m _ hop _ ihl ihr =>
    obtain ⟨l', hl, hleq⟩ := ihl
    obtain ⟨r', hr, hreq⟩ := ihr
    refine ⟨.bin op l' r', .link hl hop hr, fun hs => ?_⟩
    have hus : us <:+ ts ++ t :: us := (List.suffix_cons t us).trans (List.suffix_append ts _)
    rw [hleq (hs.of_infix (List.prefix_append ts _).isInfix), hreq (hs.of_infix hus.isInfix)]

end

/-- What the grammar derives, as it is read. -/
theorem Derives.asRead {k : Construct} {ts : List Token} {e : Expr} {n : Nat}
    (h : Derives (10 ^ ·) k ts e n) :
    ∃ e', Derives Decimal.tenTo k ts e' n ∧ (ShortFractions ts → e' = e) :=
  h.rescale fun _ hk => (Decimal.tenTo_of_lt hk).symm

/-- What is read, as the grammar derives it. -/
theorem Derives.asMeant {k : Construct} {ts : List Token} {e : Expr} {n : Nat}
    (h : Derives Decimal.tenTo k ts e n) :
    ∃ e', Derives (10 ^ ·) k ts e' n ∧ (ShortFractions ts → e' = e) :=
  h.rescale fun _ hk => Decimal.tenTo_of_lt hk

end Grammar

/-! ## What is read -/

theorem Expr.exists_ofTokens_eq_ok_iff {ts : List Token} (hp : ∀ t ∈ ts, t.Proper) :
    (∃ e, Expr.ofTokens ts = .ok e) ↔
      ∃ e k n, Derives (10 ^ ·) (.chain .sum k) ts e n ∧ n ≤ nestingLimit := by
  simp only [Expr.ofTokens_eq_ok_iff hp]
  constructor
  · rintro ⟨e, k, n, hd, hn⟩
    obtain ⟨e', hd', -⟩ := hd.asMeant
    exact ⟨e', k, n, hd', hn⟩
  · rintro ⟨e, k, n, hd, hn⟩
    obtain ⟨e', hd', -⟩ := hd.asRead
    exact ⟨e', k, n, hd', hn⟩

theorem Expr.ofTokens_eq_ok_iff_of_short {ts : List Token} {e : Expr} (hp : ∀ t ∈ ts, t.Proper)
    (hs : ShortFractions ts) : Expr.ofTokens ts = .ok e ↔
      ∃ k n, Derives (10 ^ ·) (.chain .sum k) ts e n ∧ n ≤ nestingLimit := by
  rw [Expr.ofTokens_eq_ok_iff hp]
  constructor
  · rintro ⟨k, n, hd, hn⟩
    obtain ⟨e', hd', he⟩ := hd.asMeant
    exact ⟨k, n, he hs ▸ hd', hn⟩
  · rintro ⟨k, n, hd, hn⟩
    obtain ⟨e', hd', he⟩ := hd.asRead
    exact ⟨k, n, he hs ▸ hd', hn⟩

/-- **The reader accepts the grammar, up to the limit, and builds its trees**, with exact numbers
    while fewer than `2 ^ 32` digits stand behind each point. -/
theorem read_iff_derived {ts : List Token} (hp : ∀ t ∈ ts, t.Proper) :
    ((∃ e, Expr.ofTokens ts = .ok e) ↔
      ∃ e k n, Derives (10 ^ ·) (.chain .sum k) ts e n ∧ n ≤ nestingLimit) ∧
    (ShortFractions ts → ∀ e, Expr.ofTokens ts = .ok e ↔
      ∃ k n, Derives (10 ^ ·) (.chain .sum k) ts e n ∧ n ≤ nestingLimit) ∧
    (∀ i j e e' n n', Derives (10 ^ ·) (.chain .sum i) ts e n →
      Derives (10 ^ ·) (.chain .sum j) ts e' n' → i = j ∧ e = e' ∧ n = n') ∧
    (∀ l r, Equation.ofTokens ts = .ok ⟨l, r⟩ ↔ ∃ p t s, ts = p ++ t :: s ∧ t.kind = .equal ∧
      (∀ u ∈ p ++ s, u.kind ≠ .equal) ∧ Expr.ofTokens p = .ok l ∧ Expr.ofTokens s = .ok r) ∧
    (ts ≠ [] → ts.countP (·.kind = .equal) ≠ 1 →
      Equation.ofTokens ts = .error .malformedEquation) := by
  refine ⟨Expr.exists_ofTokens_eq_ok_iff hp, ?_, ?_, ?_, ?_⟩
  · intro hs e
    exact Expr.ofTokens_eq_ok_iff_of_short hp hs
  · intro i j e e' n n' h h'
    exact h.sum_unique h'
  · intro l r
    exact Equation.ofTokens_eq_ok_iff
  · intro hne h
    exact Equation.ofTokens_eq_malformed hne h

/-- The tokens of `-x*(2-y)`. -/
def signedProduct : List Token :=
  [⟨.minus, '-'⟩, ⟨.letter, 'x'⟩, ⟨.times, '*'⟩, ⟨.lparen, '('⟩, ⟨.digit, '2'⟩, ⟨.minus, '-'⟩,
    ⟨.letter, 'y'⟩, ⟨.rparen, ')'⟩]

section
variable {scale : Nat → Nat}

/-- The sign goes into `x`; the product needs a level, and so do the parenthesis and its sum. -/
theorem derives_signedProduct : Derives scale (.chain .sum 0) signedProduct
    (.bin .mul (.mono ⟨'x', -1⟩) (.bin .sub (.const 2) (.unknown 'y'))) 3 := by
  have htwo : Derives scale .primary [⟨.digit, '2'⟩] (.const 2) 0 :=
    .atom (.number (.whole (by decide) (by decide)))
  have hy : Derives scale .primary [⟨.letter, 'y'⟩] (.unknown 'y') 0 := .atom (.letter rfl)
  have hx : Derives scale .factor [⟨.minus, '-'⟩, ⟨.letter, 'x'⟩] (.mono ⟨'x', -1⟩) 0 :=
    .minus rfl (.atom (.letter rfl))
  have hsum : Derives scale (.chain .sum 1)
      ([⟨.digit, '2'⟩] ++ ⟨.minus, '-'⟩ :: [⟨.letter, 'y'⟩])
      (.bin .sub (.const 2) (.unknown 'y')) 1 :=
    .link (.single (.product (.single (.factor (.unsigned htwo))))) rfl
      (.product (.single (.factor (.unsigned hy))))
  exact .single (.product (.link (.single (.factor hx)) rfl
    (.factor (.unsigned (.parens rfl hsum rfl)))))

theorem read_iff_derived_signedProduct : (∀ t ∈ signedProduct, t.Proper) ∧
    ShortFractions signedProduct ∧ Expr.ofTokens signedProduct =
      .ok (.bin .mul (.mono ⟨'x', -1⟩) (.bin .sub (.const 2) (.unknown 'y'))) := by
  have hp : ∀ t ∈ signedProduct, t.Proper := by decide
  have hshort : ShortFractions signedProduct := shortFractions_of_length (by decide)
  have h := (read_iff_derived hp).2.1 hshort
  exact ⟨hp, hshort, (h _).2 ⟨0, 3, derives_signedProduct, by decide⟩⟩

/-! ## Beyond short fractions -/

/-- The tokens of a point, `m` zeros and a five. -/
def smallFraction (m : Nat) : List Token :=
  ⟨.dot, '.'⟩ :: (List.replicate m ⟨.digit, '0'⟩ ++ [⟨.digit, '5'⟩])

theorem proper_smallFraction (m : Nat) : ∀ t ∈ smallFraction m, t.Proper := by
  have hdot : Token.Proper ⟨.dot, '.'⟩ := by decide
  have hzero : Token.Proper ⟨.digit, '0'⟩ := by decide
  have hfive : Token.Proper ⟨.digit, '5'⟩ := by decide
  simp only [smallFraction, List.forall_mem_cons, List.forall_mem_append, List.mem_singleton,
    forall_eq]
  refine ⟨hdot, fun t ht => ?_, hfive⟩
  rwa [List.eq_of_mem_replicate ht]

/-- It is five units of its last place. -/
theorem derives_smallFraction (m : Nat) : Derives scale (.chain .sum 0) (smallFraction m)
    (.const (5 / scale (m + 1))) 0 := by
  have hdigits : ∀ t ∈ List.replicate m (⟨.digit, '0'⟩ : Token) ++ [⟨.digit, '5'⟩],
      t.kind = .digit := by
    simp only [List.forall_mem_append, List.mem_singleton, forall_eq, and_true]
    intro t ht
    rw [List.eq_of_mem_replicate ht]
  have hnum : Number scale (smallFraction m) _ :=
    .pointed (List.forall_mem_nil _) rfl (List.append_ne_nil_of_right_ne_nil _ (by simp)) hdigits
  have hfive : naturalOf (List.replicate m (⟨.digit, '0'⟩ : Token) ++ [⟨.digit, '5'⟩]) = 5 := by
    rw [naturalOf, List.map_append, List.map_replicate, Decimal.natural,
      Nat.ofDigitChars_append, Nat.ofDigitChars_replicate_zero, Nat.mul_zero]
    rfl
  have hnone : naturalOf [] = 0 := rfl
  rw [hfive, hnone, Nat.cast_zero, zero_add, List.length_append, List.length_replicate,
    Nat.cast_ofNat, List.length_singleton] at hnum
  exact .single (.product (.single (.factor (.unsigned (.atom (.number hnum))))))

end

theorem five_ne_div {k : Nat} (hk : k ≠ 0) : (5 : Rat) ≠ 5 / 10 ^ k := by
  intro h
  have hten : (10 : Rat) ^ k ≠ 0 := pow_ne_zero k (by decide)
  rw [eq_div_iff hten, mul_eq_left₀ (by decide)] at h
  have hone : 10 ^ k = 1 := by exact_mod_cast h
  rcases Nat.pow_eq_one.1 hone with h | h
  · cases h
  · exact hk h

/-- With `2 ^ 32` digits behind the point the reader's unit is one, and five is read. -/
theorem ofTokens_smallFraction {m : Nat} (hm : m + 1 = 2 ^ 32) :
    Expr.ofTokens (smallFraction m) = .ok (.const 5) ∧
      Derives (10 ^ ·) (.chain .sum 0) (smallFraction m) (.const (5 / 10 ^ 2 ^ 32)) 0 := by
  constructor
  · have hone : Decimal.tenTo (m + 1) = 1 := by rw [hm]; rfl
    have h : Derives Decimal.tenTo (.chain .sum 0) (smallFraction m) _ 0 :=
      derives_smallFraction m
    rw [hone, Nat.cast_one, div_one] at h
    exact (Expr.ofTokens_eq_ok_iff (proper_smallFraction m)).2 ⟨0, 0, h, Nat.zero_le _⟩
  · have h : Derives (10 ^ ·) (.chain .sum 0) (smallFraction m) _ 0 := derives_smallFraction m
    rwa [hm, Nat.cast_pow, Nat.cast_ofNat] at h

/-- A point, `2 ^ 32 - 1` zeros and a five are read as five, which they do not stand for. -/
theorem read_of_longFraction : (∀ t ∈ smallFraction (2 ^ 32 - 1), t.Proper) ∧
    Expr.ofTokens (smallFraction (2 ^ 32 - 1)) = .ok (.const 5) ∧
    Derives (10 ^ ·) (.chain .sum 0) (smallFraction (2 ^ 32 - 1)) (.const (5 / 10 ^ 2 ^ 32)) 0 ∧
    ∀ k n, ¬ Derives (10 ^ ·) (.chain .sum k) (smallFraction (2 ^ 32 - 1)) (.const 5) n := by
  have hm : 2 ^ 32 - 1 + 1 = 2 ^ 32 := rfl
  obtain ⟨hread, hexact⟩ := ofTokens_smallFraction hm
  refine ⟨proper_smallFraction _, hread, hexact, fun k n h => ?_⟩
  obtain ⟨-, hvalue, -⟩ := h.sum_unique hexact
  exact five_ne_div (by decide) (Expr.const.inj hvalue)

end OneUnknown
