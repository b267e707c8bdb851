/-
  Expressions that differ in their grouping only.

  * `Expr.Agree`: the same unknowns, the same value everywhere, and both or neither with a zero
    divisor, or linear.  It is kept by operations, and by grouping sums and products from the left
    (`agree_regroup`).
  * `Equation.SameResult`: the same solution, or errors that differ at most in the product or
    quotient which they show.  Equations whose sides agree have it (`sameResult_solve`).
-/
import Mathlib.Data.Rat.Lemmas
import OneUnknown.Proofs.Passes

namespace OneUnknown

namespace Expr

/-- The same unknowns and values, zero divisors and products of unknowns. -/
structure Agree (e f : Expr) : Prop where
  occurrences : f.occurrences = e.occurrences
  value? : ∀ env, f.value? env = e.value? env
  hasZeroDivisor : f.HasZeroDivisor ↔ e.HasZeroDivisor
  nonLinear : f.NonLinear ↔ e.NonLinear

theorem Agree.refl (e : Expr) : Agree e e :=
  ⟨rfl, fun _ => rfl, Iff.rfl, Iff.rfl⟩

theorem Agree.trans {e f g : Expr} (h : Agree e f) (h' : Agree f g) : Agree e g :=
  ⟨h'.occurrences.trans h.occurrences, fun env => (h'.value? env).trans (h.value? env),
    h'.hasZeroDivisor.trans h.hasZeroDivisor, h'.nonLinear.trans h.nonLinear⟩

theorem Agree.bin {op : Op} {l l' r r' : Expr} (hl : Agree l l') (hr : Agree r r') :
    Agree (bin op l r) (bin op l' r') := by
  refine ⟨?_, fun env => ?_, ?_, ?_⟩
  · rw [Expr.occurrences, Expr.occurrences, hl.occurrences, hr.occurrences]
  · rw [value?_bin, value?_bin, hl.value?, hr.value?]
  · simp only [hasZeroDivisor_bin_iff, hl.hasZeroDivisor, hr.hasZeroDivisor, hr.occurrences,
      hr.value?]
  · simp only [nonLinear_bin_iff, hl.nonLinear, hr.nonLinear, hl.occurrences, hr.occurrences]

/-- A fraction as a quotient. -/
theorem agree_fraction (q : Rat) : Agree (const q) (.bin .div (const q.num) (const q.den)) := by
  have hden : (q.den : Rat) ≠ 0 := Nat.cast_ne_zero.2 q.den_nz
  have hd : divide q.num q.den = .ok q := divide_eq_ok_iff.2 ⟨hden, Rat.num_div_den q⟩
  refine ⟨rfl, fun env => ?_, ?_, ?_⟩
  · rw [value?_bin]
    exact congrArg Except.toOption hd
  · simp [HasZeroDivisor, nodes, Expr.value?, hden]
  · simp [NonLinear, nodes, Expr.occurrences]

theorem apply_regroup {op op' : Op} (hc : op.isCommutative = true)
    (hp : op'.precedence = op.precedence) (x y z : Rat) :
    ((op.apply x y).toOption.bind fun u => (op'.apply u z).toOption) =
      (op'.apply y z).toOption.bind fun v => (op.apply x v).toOption := by
  cases op <;> cases op' <;> cases hc <;> cases hp
  · exact congrArg some (add_assoc x y z)
  · exact congrArg some (add_sub_assoc x y z)
  · exact congrArg some (mul_assoc x y z)
  · have hdiv := toOption_divide_mul x y z
    rwa [Option.map_eq_bind] at hdiv

/-- **Grouping from the left**: the right operand of a sum or product may give its own operation
    away, if it binds as tightly. -/
theorem agree_regroup {op op' : Op} (hc : op.isCommutative = true)
    (hp : op'.precedence = op.precedence) (a b c : Expr) :
    Agree (.bin op a (.bin op' b c)) (.bin op' (.bin op a b) c) := by
  refine ⟨List.append_assoc .., fun env => ?_, ?_, ?_⟩
  · simp only [value?_bin]
    cases a.value? env <;> cases b.value? env <;> cases c.value? env <;>
      simp [apply_regroup hc hp]
  · simp only [hasZeroDivisor_bin_iff]
    cases op <;> cases op' <;> cases hc <;> cases hp <;> simp [or_assoc]
  · simp only [nonLinear_bin_iff, Expr.occurrences, List.append_eq_nil_iff, ne_eq]
    cases op <;> cases op' <;> cases hc <;> cases hp <;> simp [or_assoc]
    · tauto
    · tauto

end Expr

namespace Equation

/-! ## Results -/

/-- The same solution, or errors that differ at most in the product or quotient that they show. -/
def SameResult : Except Error Resolution → Except Error Resolution → Prop
  | .ok r, .ok s => r.solution = s.solution
  | .error e, .error f => e = f ∨ ∃ p q, e = .nonLinearTerm p ∧ f = .nonLinearTerm q
  | _, _ => False

/-- The solution depends on the difference of the sides and on the name of the unknown. -/
theorem solution_eq_of_runPasses {i i' j j' : Nat} {eq eq' : Equation} {r r' : Resolution}
    {n : Char}
    (hd : ∀ t, eq'.difference? (fun _ => t) = eq.difference? fun _ => t)
    (hn : ∀ c, c ∈ eq.occurrences ↔ c = n) (hn' : ∀ c, c ∈ eq'.occurrences ↔ c = n)
    (h : eq.runPasses i j = .ok r) (h' : eq'.runPasses i' j' = .ok r') :
    r.solution = r'.solution := by
  obtain ⟨a, b, ha, haff, hname, hv⟩ := isAffine_of_runPasses h
  obtain ⟨a', b', ha', haff', hname', hv'⟩ := isAffine_of_runPasses h'
  obtain ⟨rfl, rfl⟩ := haff.unique fun t => (hd t).symm.trans (haff' t)
  obtain ⟨⟨m, v⟩, steps⟩ := r
  obtain ⟨⟨m', v'⟩, steps'⟩ := r'
  exact congrArg₂ Solution.mk (((hn m).1 hname).trans ((hn' m').1 hname').symm)
    (hv.trans hv'.symm)

/-- **Equations whose sides agree have the same result**, within any limit from two passes on. -/
theorem sameResult_solve {passes : Nat} {eq eq' : Equation} (hp : 2 ≤ passes)
    (hl : Expr.Agree eq.left eq'.left) (hr : Expr.Agree eq.right eq'.right) :
    SameResult (eq.solve passes) (eq'.solve passes) := by
  have hocc : eq'.occurrences = eq.occurrences := by
    rw [occurrences, occurrences, hl.occurrences, hr.occurrences]
  have hcheck : eq'.checkUnknown = eq.checkUnknown := by
    rw [checkUnknown, checkUnknown, names, names, hl.occurrences, hr.occurrences]
  cases hu : eq.checkUnknown with
  | error err =>
    rw [solve_eq_error hu, solve_eq_error (hcheck.trans hu)]
    exact .inl rfl
  | ok u =>
    obtain ⟨n, hn⟩ := checkUnknown_eq_ok_iff.1 hu
    have ho : eq.occurrences ≠ [] := List.ne_nil_of_mem ((hn n).2 rfl)
    obtain ⟨left, rfl⟩ := Nat.exists_eq_add_of_le' hp
    rw [solve_eq_runPasses hu, solve_eq_runPasses (hcheck.trans hu)]
    obtain ⟨hz, hother⟩ := runPasses_outcome (left + 2) left ho
    obtain ⟨hz', hother'⟩ := runPasses_outcome (left + 2) left (hocc.symm ▸ ho)
    rw [hl.hasZeroDivisor, hr.hasZeroDivisor] at hz' hother'
    rw [hl.nonLinear, hr.nonLinear] at hother'
    by_cases hzero : eq.left.HasZeroDivisor ∨ eq.right.HasZeroDivisor
    · rw [hz hzero, hz' hzero]
      exact .inl rfl
    by_cases hnon : eq.left.NonLinear ∨ eq.right.NonLinear
    · obtain ⟨p, hp⟩ := (hother hzero).1 hnon
      obtain ⟨p', hp'⟩ := (hother' hzero).1 hnon
      rw [hp, hp']
      exact .inr ⟨p, p', rfl, rfl⟩
    -- both are linear, with the same difference of their sides
    obtain ⟨a, b, c, d, ha, hc, heq, hne⟩ := (hother hzero).2 hnon
    obtain ⟨a', b', c', d', ha', hc', heq', hne'⟩ := (hother' hzero).2 hnon
    have hdiff : ∀ t, eq'.difference? (fun _ => t) = eq.difference? fun _ => t := fun t => by
      rw [difference?, difference?, hl.value?, hr.value?]
    obtain ⟨hac, -⟩ := (IsAffine.of_sides ha hc).unique fun t =>
      (hdiff t).symm.trans (IsAffine.of_sides ha' hc' t)
    by_cases hz : a = c
    · rw [heq hz, heq' (sub_eq_zero.1 (hac ▸ sub_eq_zero.2 hz))]
      exact .inl rfl
    · obtain ⟨r, hr⟩ := hne hz
      obtain ⟨r', hr'⟩ := hne' fun hz' => hz (sub_eq_zero.1 (hac.symm ▸ sub_eq_zero.2 hz'))
      rw [hr, hr']
      exact solution_eq_of_runPasses hdiff hn (fun c => hocc ▸ hn c) hr hr'

end Equation

end OneUnknown
