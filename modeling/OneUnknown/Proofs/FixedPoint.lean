/-
  An answer answers itself.

  * `Equation.letter_of_ofTokens`: whatever is read has letters for its unknowns.
  * `Solution.ofTokens_text`: so a solution `n = v` is read back, with a quotient in the place of
    `v` if it is a fraction.  This takes two levels at most, whatever the size of `v`.
  * `Solution.solve_readAs`: one pass solves what was read.
  * `Answer.ofText_exact`: so the exact form of an answer has the same answer.
-/
import OneUnknown.Proofs.Rendering.RoundTrip

namespace OneUnknown

open Grammar Token

/-! ## Names -/

theorem Expr.letter_of_ofTokens {ts : List Token} {e : Expr} {c : Char}
    (hp : ∀ t ∈ ts, t.Proper) (h : Expr.ofTokens ts = .ok e) (hc : c ∈ e.occurrences) :
    Kind.ofChar? c = some .letter := by
  obtain ⟨k, n, hd, -⟩ := (Expr.ofTokens_eq_ok_iff hp).1 h
  obtain ⟨t, ht, hk, rfl⟩ := hd.exists_letter hc
  rw [ofChar?_of_proper (hp t ht), hk]

theorem Equation.letter_of_ofTokens {ts : List Token} {eq : Equation} {c : Char}
    (hp : ∀ t ∈ ts, t.Proper) (h : Equation.ofTokens ts = .ok eq) (hc : c ∈ eq.occurrences) :
    Kind.ofChar? c = some .letter := by
  obtain ⟨p, t, s, rfl, -, -, hl, hr⟩ := Equation.ofTokens_eq_ok_iff.1 h
  rcases List.mem_append.1 hc with hc | hc
  · exact Expr.letter_of_ofTokens (fun u hu => hp u (List.mem_append_left _ hu)) hl hc
  · refine Expr.letter_of_ofTokens (fun u hu => hp u ?_) hr hc
    exact List.mem_append_right _ (List.mem_cons_of_mem t hu)

/-! ## Solutions -/

/-- A constant that is read back is reduced to itself. -/
theorem Expr.reduce_readAs_const (q : Rat) :
    ((const q).readAs .sum id).reduce = .ok (const q) := by
  rw [readAs]
  split_ifs with hq hp
  · rfl
  · cases hp.1
  · have hden : (q.den : Rat) ≠ 0 := Nat.cast_ne_zero.2 q.den_nz
    have hinv : divide 1 q.den = .ok (1 / q.den) := divide_eq_ok_iff.2 ⟨hden, rfl⟩
    have hval : 1 / (q.den : Rat) * q.num = q := by
      rw [one_div_mul_eq_div, Rat.num_div_den]
    show mkDiv (const q.num) (const q.den) = .ok (const q)
    rw [mkDiv, hinv]
    exact congrArg (fun v => Except.ok (const v)) hval

namespace Solution

/-- The two sides can be written if the name is a letter. -/
theorem writable_equation {s : Solution} (h : Kind.ofChar? s.name = some .letter) :
    s.equation.left.Writable ∧ s.equation.right.Writable :=
  ⟨Expr.writable_mono_iff.2 ⟨rfl, h⟩, Expr.writable_const _⟩

/-- **What a solution is written as is never too deep.** -/
theorem ofTokens_text {s : Solution} (h : Kind.ofChar? s.name = some .letter) :
    Equation.ofTokens (ofText s.equation.text) = .ok s.equation.readAs := by
  have hleft : Derives Decimal.tenTo (.chain .sum 0) (ofText (Expr.unknown s.name).text)
      (.unknown s.name) 0 :=
    .single ((Expr.derives_mono rfl h).operand .sum)
  obtain ⟨k, n, hn, hd⟩ := Expr.derives_const s.value
  have hright : Derives Decimal.tenTo (.chain .sum 0) (ofText (Expr.const s.value).text) _ n :=
    .single (.product hd)
  have hl := Expr.ofTokens_of_derives hleft fun t => proper_of_mem_ofText
  have hr := Expr.ofTokens_of_derives hright fun t => proper_of_mem_ofText
  have hlimit : n ≤ nestingLimit := Nat.le_trans hn (by decide)
  rw [if_pos (Nat.zero_le _)] at hl
  rw [if_pos hlimit] at hr
  have htext : ofText s.equation.text = ofText (Expr.unknown s.name).text ++
      ⟨.equal, '='⟩ :: ofText (Expr.const s.value).text := Equation.ofText_text s.equation
  rw [htext, Equation.ofTokens_of_derives hleft rfl hright, hl, hr]
  rfl

/-- **One pass solves a solution that is read back.** -/
theorem solve_readAs (s : Solution) {passes : Nat} (hp : 1 ≤ passes) :
    s.equation.readAs.solve passes =
      .ok ⟨s, [⟨.reduction, s.equation⟩, ⟨.solution, s.equation⟩]⟩ := by
  obtain ⟨left, rfl⟩ := Nat.exists_eq_add_of_le' hp
  have hocc : s.equation.readAs.occurrences = [s.name] := by
    have hagree : Expr.Agree (.const s.value) ((Expr.const s.value).readAs .sum id) :=
      Expr.agree_readAs .none
    exact congrArg (s.name :: ·) hagree.occurrences
  have hu : s.equation.readAs.checkUnknown = .ok () :=
    Equation.checkUnknown_eq_ok_iff.2 ⟨s.name, fun c => by rw [hocc, List.mem_singleton]⟩
  have hred : s.equation.readAs.reduce = .ok s.equation :=
    Equation.reduce_eq_ok_iff.2 ⟨rfl, Expr.reduce_readAs_const s.value⟩
  have hiso : Equation.isolate ⟨s.name, 1⟩ s.value = .ok s := by
    rw [Equation.isolate, divide_eq_ok_iff.2 ⟨one_ne_zero, rfl⟩, div_one]
    rfl
  rw [Equation.solve_eq_runPasses hu, Equation.runPasses_of_isolated? hred rfl, hiso]
  rfl

end Solution

/-! ## Answers -/

namespace Answer

theorem ofText_eq_ok_iff {s : Settings} {text : String} {a : Answer} :
    ofText s text = .ok a ↔ ∃ ts eq r, scan text.toList = .ok ts ∧
      Equation.ofTokens ts = .ok eq ∧ eq.solve s.passes = .ok r ∧
        a = ofResolution s.digits ts eq r := by
  simp only [ofText, bind_eq_ok_iff, pure, Except.pure, Except.ok.injEq]
  constructor
  · rintro ⟨ts, hts, eq, heq, r, hr, rfl⟩
    exact ⟨ts, eq, r, hts, heq, hr, rfl⟩
  · rintro ⟨ts, eq, r, hts, heq, hr, rfl⟩
    exact ⟨ts, hts, eq, heq, r, hr, rfl⟩

/-- The unknown of an answer is a letter. -/
theorem letter_of_ofText {s : Settings} {text : String} {a : Answer}
    (h : ofText s text = .ok a) : Kind.ofChar? a.solution.name = some .letter := by
  obtain ⟨ts, eq, r, hts, heq, hr, rfl⟩ := ofText_eq_ok_iff.1 h
  obtain ⟨-, rfl, -⟩ := scan_eq_ok_iff.1 hts
  obtain ⟨_, -, hrun⟩ := bind_eq_ok_iff.1 hr
  obtain ⟨-, -, -, -, hn, -⟩ := Equation.isAffine_of_runPasses hrun
  exact Equation.letter_of_ofTokens (fun t => proper_of_mem_ofText) heq hn

/-- **The exact form of an answer has the same answer**, within a single pass already. -/
theorem ofText_exact {s : Settings} {text : String} {a : Answer} (h : ofText s text = .ok a) :
    (∃ v, a.solution.equation.right = .const v ∧
      a.reading = String.ofList (Decimal.reading v s.digits)) ∧
    ∃ b, ofText s a.exact = .ok b ∧ b.exact = a.exact ∧ b.solution = a.solution ∧
      b.reading = a.reading := by
  have hletter := letter_of_ofText h
  obtain ⟨hl, hr⟩ := Solution.writable_equation hletter
  obtain ⟨ts, eq, r, -, -, -, rfl⟩ := ofText_eq_ok_iff.1 h
  refine ⟨⟨_, rfl, rfl⟩, _, ofText_eq_ok_iff.2 ⟨_, _, _, Equation.scan_render hl hr,
    Solution.ofTokens_text hletter, Solution.solve_readAs _ s.one_le_passes, rfl⟩, rfl, rfl, rfl⟩

theorem ofText_exact_halves : ∃ a b, ofText (.clamp 3 2) "3x * 1/2 = (-1/3) - (-1x + 2)" = .ok a ∧
    a.exact = "x = (-14/3)" ∧ ofText (.clamp 3 2) a.exact = .ok b ∧ b.exact = a.exact ∧
    b.solution = a.solution ∧ b.reading = a.reading := by
  obtain ⟨hl, hr⟩ := Equation.writable_halves
  have hread := Equation.read_render_eq_ok hl hr (by decide +kernel)
  obtain ⟨ts, hscan, heq⟩ := bind_eq_ok_iff.1 hread
  have htext : Equation.halves.render = "3x * 1/2 = (-1/3) - (-1x + 2)" := by decide +kernel
  have hs : (Equation.halves.readAs.solve 2).toOption.map (·.solution) = some ⟨'x', -14 / 3⟩ := by
    decide +kernel
  cases h : Equation.halves.readAs.solve 2 with
  | error err => rw [h] at hs; cases hs
  | ok r =>
    rw [h] at hs
    have hsol : r.solution = ⟨'x', -14 / 3⟩ := Option.some.inj hs
    have hpasses : (Settings.clamp 3 2).passes = 2 := by decide
    have ha : ofText (.clamp 3 2) Equation.halves.render = .ok _ :=
      ofText_eq_ok_iff.2 ⟨ts, _, r, hscan, heq, by rw [hpasses, h], rfl⟩
    rw [htext] at ha
    have hexact : r.solution.equation.render = "x = (-14/3)" := by
      rw [hsol]
      decide +kernel
    obtain ⟨-, b, hb, hsame⟩ := ofText_exact ha
    exact ⟨_, b, ha, hexact, hb, hsame⟩

end Answer

end OneUnknown
