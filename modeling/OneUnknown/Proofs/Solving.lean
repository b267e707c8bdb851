/-
  What solving returns, and for which equations.

  * `IsAffine a b`: the left side minus the right side is `a * t + b`.  A reduction keeps it, a
    migration keeps it, and an isolated unknown is divided out of it (`isolate_of_isolated?`).
  * `isAffine_of_runPasses` carries it through the passes.  Hence the solution is the only number
    at which the two sides have the same value, and they have one everywhere.
  * `runPasses_of_linear`: two passes are enough for a linear equation.  Hence the tree alone
    decides which answer or error comes out (`runPasses_outcome`).
-/
import Mathlib.Tactic.Linarith
import OneUnknown.Proofs.Linearity

namespace OneUnknown.Equation

/-! ## Reduction of both sides -/

theorem reduce_eq_ok_iff {eq reduced : Equation} : eq.reduce = .ok reduced ↔
    eq.left.reduce = .ok reduced.left ∧ eq.right.reduce = .ok reduced.right := by
  rw [reduce]
  simp only [bind_eq_ok_iff, pure, Except.pure, Except.ok.injEq]
  constructor
  · rintro ⟨l, hl, r, hr, rfl⟩
    exact ⟨hl, hr⟩
  · rintro ⟨hl, hr⟩
    exact ⟨_, hl, _, hr, rfl⟩

theorem reduce_eq_error_iff {eq : Equation} {err : Error} : eq.reduce = .error err ↔
    err = .divisionByZero ∧ (eq.left.HasZeroDivisor ∨ eq.right.HasZeroDivisor) := by
  rw [reduce]
  simp only [bind_eq_error_iff, Expr.reduce_eq_error_iff, pure, Except.pure, reduceCtorEq,
    and_false, exists_false, or_false]
  constructor
  · rintro (⟨he, hz⟩ | ⟨l, -, he, hz⟩)
    · exact ⟨he, .inl hz⟩
    · exact ⟨he, .inr hz⟩
  · rintro ⟨he, hz | hz⟩
    · exact .inl ⟨he, hz⟩
    · cases hl : eq.left.reduce with
      | error err' =>
        have hz' := Expr.reduce_eq_error_iff.1 hl
        exact .inl ⟨he, hz'.2⟩
      | ok l => exact .inr ⟨l, rfl, he, hz⟩

theorem difference?_of_reduce {eq reduced : Equation} (t : Rat) (h : eq.reduce = .ok reduced) :
    reduced.difference? (fun _ => t) = eq.difference? fun _ => t := by
  obtain ⟨hl, hr⟩ := reduce_eq_ok_iff.1 h
  rw [difference?, difference?, Expr.value?_of_reduce t hl, Expr.value?_of_reduce t hr]

theorem occurrences_subset_of_reduce {eq reduced : Equation} (h : eq.reduce = .ok reduced) :
    reduced.occurrences ⊆ eq.occurrences := by
  obtain ⟨hl, hr⟩ := reduce_eq_ok_iff.1 h
  intro c hc
  rcases List.mem_append.1 hc with hc | hc
  · exact List.mem_append_left _ (Expr.occurrences_subset_of_reduce hl hc)
  · exact List.mem_append_right _ (Expr.occurrences_subset_of_reduce hr hc)

theorem occurrences_eq_nil_iff_of_reduce {eq reduced : Equation} (h : eq.reduce = .ok reduced) :
    reduced.occurrences = [] ↔ eq.occurrences = [] := by
  obtain ⟨hl, hr⟩ := reduce_eq_ok_iff.1 h
  rw [occurrences, occurrences, List.append_eq_nil_iff, List.append_eq_nil_iff,
    Expr.occurrences_eq_nil_iff_of_reduce hl, Expr.occurrences_eq_nil_iff_of_reduce hr]

/-! ## Affine equations -/

/-- Where the unknown is `t`, the left side minus the right side is `a * t + b`. -/
def IsAffine (a b : Rat) (eq : Equation) : Prop :=
  ∀ t, eq.difference? (fun _ => t) = some (a * t + b)

theorem IsAffine.of_sides {a b c d : Rat} {eq : Equation} (hl : eq.left.IsAffine a b)
    (hr : eq.right.IsAffine c d) : eq.IsAffine (a - c) (b - d) := by
  intro t
  exact difference?_eq_some_iff.2 ⟨_, _, hl t, hr t, by ring⟩

theorem IsAffine.unique {a b c d : Rat} {eq : Equation} (h : eq.IsAffine a b)
    (h' : eq.IsAffine c d) : a = c ∧ b = d := by
  have h₀ := Option.some.inj ((h 0).symm.trans (h' 0))
  have h₁ := Option.some.inj ((h 1).symm.trans (h' 1))
  constructor <;> linarith

/-- An isolated unknown is the root of the equation, if its coefficient is not zero. -/
theorem isolate_of_isolated? {eq : Equation} {m : Monomial} {q : Rat}
    (h : eq.isolated? = some (m, q)) : ∃ a b, eq.IsAffine a b ∧ m.name ∈ eq.occurrences ∧
      (a = 0 → isolate m q = .error .divisionByZero) ∧
      (a ≠ 0 → isolate m q = .ok ⟨m.name, -b / a⟩) := by
  unfold isolated? at h
  split at h
  · cases h
    refine ⟨m.coef, -q, fun t => ?_, List.mem_cons_self, fun ha => ?_, fun ha => ?_⟩
    · exact difference?_eq_some_iff.2 ⟨_, _, rfl, rfl, by ring⟩
    · rw [isolate, divide_eq_error_iff.2 ⟨ha, rfl⟩]
      rfl
    · rw [isolate, divide_eq_ok_iff.2 ⟨ha, rfl⟩, neg_neg]
      rfl
  · cases h
    refine ⟨-m.coef, q, fun t => ?_, List.mem_cons_self, fun ha => ?_, fun ha => ?_⟩
    · exact difference?_eq_some_iff.2 ⟨_, _, rfl, rfl, by ring⟩
    · rw [isolate, divide_eq_error_iff.2 ⟨neg_eq_zero.1 ha, rfl⟩]
      rfl
    · rw [isolate, divide_eq_ok_iff.2 ⟨fun hc => ha (neg_eq_zero.2 hc), rfl⟩, neg_div_neg_eq]
      rfl
  · cases h

/-! ## Passes -/

/-- A run of passes succeeds by isolating the unknown in its first pass, or by migrating to an
    equation from which the other passes succeed. -/
theorem runPasses_succ_eq_ok_iff {limit left : Nat} {eq : Equation} {r : Resolution} :
    eq.runPasses limit (left + 1) = .ok r ↔ ∃ reduced, eq.reduce = .ok reduced ∧
      ((∃ m q s, reduced.isolated? = some (m, q) ∧ isolate m q = .ok s ∧
          r = ⟨s, [⟨.reduction, reduced⟩, ⟨.solution, s.equation⟩]⟩) ∨
        (reduced.isolated? = none ∧ ∃ moved, reduced.migrate = .ok moved ∧ moved ≠ reduced ∧
          ∃ r', moved.runPasses limit left = .ok r' ∧
            r = { r' with
              steps := ⟨.reduction, reduced⟩ :: ⟨.migration, moved⟩ :: r'.steps })) := by
  rw [runPasses, bind_eq_ok_iff]
  refine exists_congr fun reduced => and_congr_right fun _ => ?_
  cases hi : reduced.isolated? with
  | some mq =>
    obtain ⟨m, q⟩ := mq
    simp only [bind_eq_ok_iff, pure, Except.pure, Except.ok.injEq]
    constructor
    · rintro ⟨s, hs, rfl⟩
      exact .inl ⟨m, q, s, rfl, hs, rfl⟩
    · rintro (⟨m', q', s, hm, hs, rfl⟩ | ⟨hn, -⟩)
      · cases hm
        exact ⟨s, hs, rfl⟩
      · cases hn
  | none =>
    simp only [bind_eq_ok_iff]
    constructor
    · rintro ⟨moved, hm, h⟩
      split at h
      · cases h
      · next hne =>
        obtain ⟨r', hr, h⟩ := bind_eq_ok_iff.1 h
        cases h
        exact .inr ⟨trivial, moved, hm, hne, r', hr, rfl⟩
    · rintro (⟨m, q, s, hm, -⟩ | ⟨-, moved, hm, hne, r', hr, rfl⟩)
      · cases hm
      · refine ⟨moved, hm, ?_⟩
        rw [if_neg hne, hr]
        rfl

/-- **A run of passes that succeeds finds the root of the equation**, under a name in it. -/
theorem isAffine_of_runPasses {limit left : Nat} {eq : Equation} {r : Resolution}
    (h : eq.runPasses limit left = .ok r) : ∃ a b, a ≠ 0 ∧ eq.IsAffine a b ∧
      r.solution.name ∈ eq.occurrences ∧ r.solution.value = -b / a := by
  induction left generalizing eq r with
  | zero => cases h
  | succ left ih =>
    obtain ⟨reduced, hred, hcase⟩ := runPasses_succ_eq_ok_iff.1 h
    -- what holds of the reduced equation holds of the given one
    have key : ∀ s : Solution, (∃ a b, a ≠ 0 ∧ reduced.IsAffine a b ∧
        s.name ∈ reduced.occurrences ∧ s.value = -b / a) → ∃ a b, a ≠ 0 ∧ eq.IsAffine a b ∧
          s.name ∈ eq.occurrences ∧ s.value = -b / a := by
      rintro s ⟨a, b, ha, haff, hn, hv⟩
      exact ⟨a, b, ha, fun t => (difference?_of_reduce t hred).symm.trans (haff t),
        occurrences_subset_of_reduce hred hn, hv⟩
    apply key
    rcases hcase with ⟨m, q, s, hi, hs, rfl⟩ | ⟨-, moved, hm, -, r', hr, rfl⟩
    · obtain ⟨a, b, haff, hn, hz, hnz⟩ := isolate_of_isolated? hi
      have ha : a ≠ 0 := by
        intro ha
        rw [hz ha] at hs
        cases hs
      rw [hnz ha] at hs
      cases hs
      exact ⟨a, b, ha, haff, hn, rfl⟩
    · obtain ⟨a, b, ha, haff, hn, hv⟩ := ih hr
      obtain ⟨hol, hor⟩ := occurrences_of_migrate hm
      refine ⟨a, b, ha, fun t => (difference?_of_migrate _ hm).symm.trans (haff t), ?_, hv⟩
      rwa [occurrences, hol, hor, List.append_nil] at hn

/-! ## Linear equations -/

theorem runPasses_of_isolated? {limit left : Nat} {eq reduced : Equation} {m : Monomial} {q : Rat}
    (h : eq.reduce = .ok reduced) (hi : reduced.isolated? = some (m, q)) :
    eq.runPasses limit (left + 1) =
      (isolate m q).map fun s => ⟨s, [⟨.reduction, reduced⟩, ⟨.solution, s.equation⟩]⟩ := by
  rw [runPasses, h]
  simp only [bind, Except.bind, hi]
  cases isolate m q <;> rfl

/-- A reduced equation that migrates to itself would have an isolated unknown. -/
theorem ne_of_migrate {eq reduced moved : Equation} (h : eq.reduce = .ok reduced)
    (hi : reduced.isolated? = none) (hm : reduced.migrate = .ok moved) : moved ≠ reduced := by
  obtain ⟨hl, hr⟩ := reduce_eq_ok_iff.1 h
  rintro rfl
  obtain ⟨m, q, hs⟩ := isolated?_of_migrate_self (Expr.reduced_of_reduce hl)
    (Expr.reduced_of_reduce hr) hm
  rw [hi] at hs
  cases hs

theorem runPasses_of_migrate {limit left : Nat} {eq reduced moved : Equation}
    (h : eq.reduce = .ok reduced) (hi : reduced.isolated? = none)
    (hm : reduced.migrate = .ok moved) :
    eq.runPasses limit (left + 1) = (moved.runPasses limit left).map fun r =>
      { r with steps := ⟨.reduction, reduced⟩ :: ⟨.migration, moved⟩ :: r.steps } := by
  rw [runPasses, h]
  simp only [bind, Except.bind, hi, hm, if_neg (ne_of_migrate h hi hm)]
  cases moved.runPasses limit left <;> rfl

/-- **Two passes are enough for a linear equation.** -/
theorem runPasses_of_linear {eq reduced : Equation} (limit left : Nat)
    (h : eq.reduce = .ok reduced) (hl : reduced.left.firstProduct? = none)
    (hr : reduced.right.firstProduct? = none) (ho : eq.occurrences ≠ []) :
    ∃ a b, eq.IsAffine a b ∧
      (a = 0 → eq.runPasses limit (left + 2) = .error .divisionByZero) ∧
      (a ≠ 0 → ∃ r, eq.runPasses limit (left + 2) = .ok r) := by
  cases hi : reduced.isolated? with
  | some mq =>
    obtain ⟨m, q⟩ := mq
    obtain ⟨a, b, haff, -, hz, hnz⟩ := isolate_of_isolated? hi
    rw [runPasses_of_isolated? h hi]
    refine ⟨a, b, fun t => (difference?_of_reduce t h).symm.trans (haff t), fun ha => ?_,
      fun ha => ?_⟩
    · rw [hz ha]; rfl
    · rw [hnz ha]; exact ⟨_, rfl⟩
  | none =>
    have ho' : reduced.occurrences ≠ [] := fun hn => ho ((occurrences_eq_nil_iff_of_reduce h).1 hn)
    obtain ⟨moved, hm⟩ := exists_migrate hl hr ho'
    obtain ⟨m, q, hmr⟩ := reduce_of_migrate hm
    have hself : isolated? ⟨.mono m, .const q⟩ = some (m, q) := rfl
    obtain ⟨a, b, haff, -, hz, hnz⟩ := isolate_of_isolated? hself
    rw [runPasses_of_migrate h hi hm, runPasses_of_isolated? hmr rfl]
    refine ⟨a, b, fun t => ?_, fun ha => ?_, fun ha => ?_⟩
    · rw [← difference?_of_reduce t h, ← difference?_of_migrate _ hm, ← difference?_of_reduce t hmr,
        haff]
    · rw [hz ha]; rfl
    · rw [hnz ha]; exact ⟨_, rfl⟩

theorem isolated?_eq_none {eq : Equation} {p : Expr}
    (h : eq.left.firstProduct?.or eq.right.firstProduct? = some p) : eq.isolated? = none := by
  unfold isolated?
  split
  · cases h
  · cases h
  · rfl

/-- The leftmost product or quotient that reduction leaves in the way is refused. -/
theorem runPasses_of_firstProduct? {limit left : Nat} {eq reduced : Equation} {p : Expr}
    (h : eq.reduce = .ok reduced)
    (hp : reduced.left.firstProduct?.or reduced.right.firstProduct? = some p) :
    eq.runPasses limit (left + 1) = .error (.nonLinearTerm p) := by
  rw [runPasses, h]
  simp only [bind, Except.bind, isolated?_eq_none hp, migrate_eq_error hp]

/-! ## The single unknown -/

/-- The two smallest of some characters. -/
def TwoSmallest (a b : Char) (cs : List Char) : Prop :=
  a ∈ cs ∧ b ∈ cs ∧ a < b ∧ ∀ c ∈ cs, c = a ∨ b ≤ c

/-- Before the first pass the unknowns are counted, each once. -/
theorem checkUnknown_cases (eq : Equation) :
    (eq.occurrences = [] ∧ eq.checkUnknown = .error .noUnknown) ∨
      (∃ n, (∀ c, c ∈ eq.occurrences ↔ c = n) ∧ eq.checkUnknown = .ok ()) ∨
      ∃ a b, TwoSmallest a b eq.occurrences ∧ eq.checkUnknown = .error (.multipleUnknowns a b) := by
  have hmem : ∀ c, c ∈ eq.names ↔ c ∈ eq.occurrences := fun c => mem_ascending
  have hlt : eq.names.Pairwise (· < ·) := pairwise_ascending _
  unfold checkUnknown
  split
  · next h =>
    refine .inl ⟨List.eq_nil_iff_forall_not_mem.2 fun c hc => ?_, rfl⟩
    simpa [h] using (hmem c).2 hc
  · next n h => exact .inr (.inl ⟨n, fun c => by rw [← hmem, h, List.mem_singleton], rfl⟩)
  · next a b cs h =>
    rw [h] at hmem hlt
    simp only [List.pairwise_cons] at hlt
    obtain ⟨ha, hb, -⟩ := hlt
    refine .inr (.inr ⟨a, b, ⟨(hmem a).1 (by simp), (hmem b).1 (by simp), ha b (by simp), ?_⟩, rfl⟩)
    intro c hc
    rcases List.mem_cons.1 ((hmem c).2 hc) with rfl | hc
    · exact .inl rfl
    · rcases List.mem_cons.1 hc with rfl | hc
      · exact .inr (Char.le_refl _)
      · exact .inr (Char.not_lt.1 (Char.lt_asymm (hb c hc)))

/-- **The solution is the only root.**  Both sides have a value wherever the unknown is put. -/
theorem solution_iff {passes : Nat} {eq : Equation} {r : Resolution}
    (h : eq.solve passes = .ok r) : ∃ n v, r.solution.equation = ⟨.mono ⟨n, 1⟩, .const v⟩ ∧
      (∀ c, c ∈ eq.occurrences ↔ c = n) ∧
      ∀ env, ∃ a b, eq.left.value? env = some a ∧ eq.right.value? env = some b ∧
        (a = b ↔ env n = v) := by
  obtain ⟨_, hu, hr⟩ := bind_eq_ok_iff.1 h
  obtain ⟨a, b, ha, haff, hn, hv⟩ := isAffine_of_runPasses hr
  rcases checkUnknown_cases eq with ⟨-, he⟩ | ⟨n, hocc, -⟩ | ⟨c, d, -, he⟩
  · rw [he] at hu; cases hu
  · obtain rfl : r.solution.name = n := (hocc _).1 hn
    refine ⟨_, _, rfl, hocc, fun env => ?_⟩
    obtain ⟨x, y, hx, hy, hd⟩ := difference?_eq_some_iff.1 (haff (env r.solution.name))
    -- only the one unknown matters
    have hl : eq.left.value? env = some x := by
      rw [← hx]
      exact Expr.value?_congr fun c hc => by rw [(hocc c).1 (List.mem_append_left _ hc)]
    have hr : eq.right.value? env = some y := by
      rw [← hy]
      exact Expr.value?_congr fun c hc => by rw [(hocc c).1 (List.mem_append_right _ hc)]
    refine ⟨x, y, hl, hr, ?_⟩
    rw [hv, eq_div_iff ha, ← sub_eq_zero, hd, add_eq_zero_iff_eq_neg, mul_comm]
  · rw [he] at hu; cases hu

/-- `1/2 * (2 - (3 - x) / 4) = x - 1` -/
def nestedDifference : Equation where
  left := .bin .mul (.const (1 / 2)) (.bin .sub (.const 2)
    (.bin .div (.bin .sub (.const 3) (.unknown 'x')) (.const 4)))
  right := .bin .sub (.unknown 'x') (.const 1)

theorem solution_iff_nestedDifference : ∃ r, nestedDifference.solve 2 = .ok r ∧
    r.solution = ⟨'x', 13 / 7⟩ ∧ ∀ env, ∃ a b, nestedDifference.left.value? env = some a ∧
      nestedDifference.right.value? env = some b ∧ (a = b ↔ env 'x' = 13 / 7) := by
  have hs : (nestedDifference.solve 2).toOption.map (·.solution) = some ⟨'x', 13 / 7⟩ := by
    decide +kernel
  cases h : nestedDifference.solve 2 with
  | error err => rw [h] at hs; cases hs
  | ok r =>
    rw [h] at hs
    have hsol : r.solution = ⟨'x', 13 / 7⟩ := Option.some.inj hs
    obtain ⟨n, v, he, -, hroot⟩ := solution_iff h
    rw [hsol] at he
    cases he
    exact ⟨r, rfl, hsol, hroot⟩

/-- With one unknown, the outcome of two or more passes. -/
theorem runPasses_outcome {eq : Equation} (limit left : Nat) (ho : eq.occurrences ≠ []) :
    (eq.left.HasZeroDivisor ∨ eq.right.HasZeroDivisor →
      eq.runPasses limit (left + 2) = .error .divisionByZero) ∧
    (¬ (eq.left.HasZeroDivisor ∨ eq.right.HasZeroDivisor) →
      (eq.left.NonLinear ∨ eq.right.NonLinear →
        ∃ p, eq.runPasses limit (left + 2) = .error (.nonLinearTerm p)) ∧
      (¬ (eq.left.NonLinear ∨ eq.right.NonLinear) →
        ∃ a b c d, eq.left.IsAffine a b ∧ eq.right.IsAffine c d ∧
          (a = c → eq.runPasses limit (left + 2) = .error .divisionByZero) ∧
          (a ≠ c → ∃ r, eq.runPasses limit (left + 2) = .ok r))) := by
  refine ⟨fun hz => ?_, fun hz => ?_⟩
  · rw [runPasses, reduce_eq_error_iff.2 ⟨rfl, hz⟩]
    rfl
  · have hred : ∃ reduced, eq.reduce = .ok reduced := by
      cases h : eq.reduce with
      | ok reduced => exact ⟨reduced, rfl⟩
      | error err => exact absurd (reduce_eq_error_iff.1 h).2 hz
    obtain ⟨reduced, hred⟩ := hred
    obtain ⟨hl, hr⟩ := reduce_eq_ok_iff.1 hred
    have hpl := Expr.firstProduct?_of_reduce hl
    have hpr := Expr.firstProduct?_of_reduce hr
    refine ⟨fun hn => ?_, fun hn => ?_⟩
    · have hp : reduced.left.firstProduct?.or reduced.right.firstProduct? ≠ none := by
        rw [Ne, Option.or_eq_none_iff, hpl, hpr]
        tauto
      obtain ⟨p, hp⟩ := Option.ne_none_iff_exists'.1 hp
      exact ⟨p, runPasses_of_firstProduct? hred hp⟩
    · obtain ⟨hnl, hnr⟩ := not_or.1 hn
      obtain ⟨a, b, hal⟩ := Expr.exists_isAffine_of_reduce hl hnl
      obtain ⟨c, d, har⟩ := Expr.exists_isAffine_of_reduce hr hnr
      obtain ⟨e, f, haff, he, hne⟩ :=
        runPasses_of_linear limit left hred (hpl.2 hnl) (hpr.2 hnr) ho
      obtain ⟨rfl, -⟩ := haff.unique (IsAffine.of_sides hal har)
      exact ⟨a, b, c, d, hal, har, fun hac => he (sub_eq_zero.2 hac),
        fun hac => hne (sub_ne_zero.2 hac)⟩

/-- With one unknown, two or more passes never come to their end without an answer. -/
theorem runPasses_cases {eq : Equation} (limit left : Nat) (ho : eq.occurrences ≠ []) :
    eq.runPasses limit (left + 2) = .error .divisionByZero ∨
      (∃ p, eq.runPasses limit (left + 2) = .error (.nonLinearTerm p)) ∨
      ∃ r, eq.runPasses limit (left + 2) = .ok r := by
  obtain ⟨hzero, hother⟩ := runPasses_outcome limit left ho
  by_cases hz : eq.left.HasZeroDivisor ∨ eq.right.HasZeroDivisor
  · exact .inl (hzero hz)
  by_cases hn : eq.left.NonLinear ∨ eq.right.NonLinear
  · exact .inr (.inl ((hother hz).1 hn))
  obtain ⟨a, b, c, d, -, -, he, hne⟩ := (hother hz).2 hn
  by_cases hac : a = c
  · exact .inl (he hac)
  · exact .inr (.inr (hne hac))

/-- **The tree alone decides the outcome**: the first of these cases that applies, whatever the
    number of passes, if there are two. -/
theorem solve_outcome {passes : Nat} (hp : 2 ≤ passes) (eq : Equation) :
    (eq.occurrences = [] → eq.solve passes = .error .noUnknown) ∧
    (∀ c ∈ eq.occurrences, ∀ d ∈ eq.occurrences, c ≠ d →
      ∃ a b, TwoSmallest a b eq.occurrences ∧
        eq.solve passes = .error (.multipleUnknowns a b)) ∧
    (∀ n, (∀ c, c ∈ eq.occurrences ↔ c = n) →
      (eq.left.HasZeroDivisor ∨ eq.right.HasZeroDivisor →
        eq.solve passes = .error .divisionByZero) ∧
      (¬ (eq.left.HasZeroDivisor ∨ eq.right.HasZeroDivisor) →
        (eq.left.NonLinear ∨ eq.right.NonLinear →
          ∃ p, eq.solve passes = .error (.nonLinearTerm p)) ∧
        (¬ (eq.left.NonLinear ∨ eq.right.NonLinear) →
          ∃ a b c d, eq.left.IsAffine a b ∧ eq.right.IsAffine c d ∧
            (a = c → eq.solve passes = .error .divisionByZero) ∧
            (a ≠ c → ∃ r, eq.solve passes = .ok r)))) ∧
    (eq.solve passes = .error .noUnknown → eq.occurrences = []) ∧
    ∀ k, eq.solve passes ≠ .error (.noProgress k) := by
  rcases checkUnknown_cases eq with ⟨ho, hu⟩ | ⟨n, hocc, hu⟩ | ⟨a, b, hab, hu⟩
  · -- no unknown
    have hs : eq.solve passes = .error .noUnknown := by rw [solve, hu]; rfl
    refine ⟨fun _ => hs, ?_, ?_, fun _ => ho, fun k hk => ?_⟩
    · intro c hc; simp [ho] at hc
    · intro n hn; simpa [ho] using hn n
    · rw [hs] at hk; cases hk
  · -- one unknown
    obtain ⟨left, rfl⟩ := Nat.exists_eq_add_of_le' hp
    have hs : eq.solve (left + 2) = eq.runPasses (left + 2) (left + 2) := by rw [solve, hu]; rfl
    have ho : eq.occurrences ≠ [] := List.ne_nil_of_mem ((hocc n).2 rfl)
    rw [hs]
    refine ⟨fun hn => absurd hn ho, fun c hc d hd hcd => ?_,
      fun _ _ => runPasses_outcome (left + 2) left ho, fun he => ?_, fun k hk => ?_⟩
    · exact absurd (((hocc c).1 hc).trans ((hocc d).1 hd).symm) hcd
    · rcases runPasses_cases (left + 2) left ho with h | ⟨p, h⟩ | ⟨r, h⟩ <;>
        rw [h] at he <;> cases he
    · rcases runPasses_cases (left + 2) left ho with h | ⟨p, h⟩ | ⟨r, h⟩ <;>
        rw [h] at hk <;> cases hk
  · -- several unknowns
    have hs : eq.solve passes = .error (.multipleUnknowns a b) := by rw [solve, hu]; rfl
    refine ⟨fun ho => ?_, fun _ _ _ _ _ => ⟨a, b, hab, hs⟩, fun n hn => ?_, fun he => ?_,
      fun k hk => ?_⟩
    · have ha := hab.1
      simp [ho] at ha
    · exact absurd (((hn a).1 hab.1).trans ((hn b).1 hab.2.1).symm) (Char.ne_of_lt hab.2.2.1)
    · rw [hs] at he; cases he
    · rw [hs] at hk; cases hk

/-- In `x * x = 1 / 0` the zero divisor counts before the product. -/
theorem solve_outcome_square_eq_quotient : 2 ≤ 2 ∧
    solve 2 ⟨.bin .mul (.unknown 'x') (.unknown 'x'), .bin .div (.const 1) (.const 0)⟩ =
      .error .divisionByZero := by
  have hone := (solve_outcome (Nat.le_refl 2)
    ⟨.bin .mul (.unknown 'x') (.unknown 'x'), .bin .div (.const 1) (.const 0)⟩).2.2.1 'x'
  refine ⟨Nat.le_refl 2, (hone ?_).1 (.inr ⟨.const 1, .const 0, List.mem_cons_self, rfl, ?_⟩)⟩
  · simp [occurrences, Expr.occurrences, Expr.unknown]
  · intro env
    rfl

end OneUnknown.Equation
