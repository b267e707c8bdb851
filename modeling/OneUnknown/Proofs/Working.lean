/-
  Every line of the working follows from the line before it.

  * `SameSides`: the sides of two equations have the same values under every assignment.  Reduction
    has it, as long as there is one unknown (`sameSides_of_reduce`).
  * `SameDifference`: the left side minus the right side is the same.  Migration has it, and leaves
    nothing but monomials on the left and constants on the right (`Separated`).
  * `Worked eq steps s`: the steps lead from `eq` to the solution `s`, each by the law of its kind.
    The steps of a resolution do (`worked_of_runPasses`), and such steps end with a solution that
    holds where `eq` does (`Worked.holdsAt_iff`).
-/
import OneUnknown.Proofs.Solving

namespace OneUnknown.Equation

/-! ## Laws of the steps -/

/-- Both sides have a value under every assignment, the same one in both equations. -/
def SameSides (eq eq' : Equation) : Prop :=
  ∀ env, ∃ a b, eq.left.value? env = some a ∧ eq'.left.value? env = some a ∧
    eq.right.value? env = some b ∧ eq'.right.value? env = some b

/-- Under every assignment the left side minus the right side is the same in both equations. -/
def SameDifference (eq eq' : Equation) : Prop :=
  ∀ env, ∃ d, eq.difference? env = some d ∧ eq'.difference? env = some d

/-- A sum of monomials on the left, a sum of constants on the right. -/
def Separated (eq : Equation) : Prop :=
  (∃ (m : Monomial) (ms : List Monomial), eq.left = .sum (.mono m) (ms.map .mono)) ∧
    ∃ (q : Rat) (qs : List Rat), eq.right = .sum (.const q) (qs.map .const)

theorem holdsAt_iff {env : Char → Rat} {eq : Equation} :
    eq.HoldsAt env ↔ eq.difference? env = some 0 := by
  rw [difference?_eq_some_iff]
  constructor
  · rintro ⟨q, hl, hr⟩
    exact ⟨q, q, hl, hr, sub_self q⟩
  · rintro ⟨a, b, hl, hr, hab⟩
    exact ⟨a, hl, sub_eq_zero.1 hab ▸ hr⟩

theorem SameSides.sameDifference {eq eq' : Equation} (h : eq.SameSides eq') :
    eq.SameDifference eq' := by
  intro env
  obtain ⟨a, b, hl, hl', hr, hr'⟩ := h env
  exact ⟨a - b, difference?_eq_some_iff.2 ⟨a, b, hl, hr, rfl⟩,
    difference?_eq_some_iff.2 ⟨a, b, hl', hr', rfl⟩⟩

/-- Equations with the same difference of their sides hold at the same places. -/
theorem SameDifference.holdsAt_iff {eq eq' : Equation} (h : eq.SameDifference eq')
    (env : Char → Rat) : eq'.HoldsAt env ↔ eq.HoldsAt env := by
  obtain ⟨d, hd, hd'⟩ := h env
  rw [Equation.holdsAt_iff, Equation.holdsAt_iff, hd, hd']

/-! ## Reduction, migration, solution -/

/-- An affine equation has a difference of its sides under every assignment, if it has one unknown
    at most. -/
theorem IsAffine.difference?_eq {a b : Rat} {eq : Equation} {n : Char} (h : eq.IsAffine a b)
    (hn : ∀ c ∈ eq.occurrences, c = n) (env : Char → Rat) :
    eq.difference? env = some (a * env n + b) := by
  have hl : eq.left.value? env = eq.left.value? fun _ => env n :=
    Expr.value?_congr fun c hc => congrArg env (hn c (List.mem_append_left _ hc))
  have hr : eq.right.value? env = eq.right.value? fun _ => env n :=
    Expr.value?_congr fun c hc => congrArg env (hn c (List.mem_append_right _ hc))
  rw [← h, difference?, difference?, hl, hr]

/-- **Reduction keeps the values of both sides.** -/
theorem sameSides_of_reduce {eq reduced : Equation} {n : Char}
    (hn : ∀ c ∈ eq.occurrences, c = n) (hd : ∀ env, ∃ d, eq.difference? env = some d)
    (h : eq.reduce = .ok reduced) : eq.SameSides reduced := by
  obtain ⟨hl, hr⟩ := reduce_eq_ok_iff.1 h
  intro env
  obtain ⟨d, hd⟩ := hd env
  obtain ⟨a, b, ha, hb, -⟩ := difference?_eq_some_iff.1 hd
  have henv : ∀ c ∈ eq.occurrences, env c = env n := fun c hc => congrArg env (hn c hc)
  refine ⟨a, b, ha, ?_, hb, ?_⟩
  · rw [← ha]
    exact Expr.value?_of_reduce_of_forall_eq _ (fun c hc => henv c (List.mem_append_left _ hc)) hl
  · rw [← hb]
    exact Expr.value?_of_reduce_of_forall_eq _ (fun c hc => henv c (List.mem_append_right _ hc)) hr

/-- **Migration separates the monomials from the constants.** -/
theorem separated_of_migrate {eq moved : Equation} (h : eq.migrate = .ok moved) :
    moved.Separated := by
  obtain ⟨ts, -, us, -, hg⟩ := migrate_eq_ok_iff.1 h
  obtain ⟨m, ms, -, rfl⟩ := gather_eq_ok_iff.1 hg
  refine ⟨⟨m, ms, rfl⟩, ?_⟩
  cases movedConstants ts us with
  | nil => exact ⟨0, [], rfl⟩
  | cons q qs => exact ⟨q, qs, rfl⟩

theorem holdsAt_mono_const_iff {m : Monomial} {q : Rat} {env : Char → Rat} :
    HoldsAt env ⟨.mono m, .const q⟩ ↔ m.coef * env m.name = q := by
  simp [HoldsAt, Expr.value?, eq_comm]

/-- **A solution holds where the equation holds that it is isolated from.** -/
theorem holdsAt_isolate_iff {eq : Equation} {m : Monomial} {q : Rat} {s : Solution}
    (h : eq.isolated? = some (m, q)) (hs : isolate m q = .ok s) (env : Char → Rat) :
    s.equation.HoldsAt env ↔ eq.HoldsAt env := by
  have heq : eq.HoldsAt env ↔ m.coef * env m.name = q := by
    unfold isolated? at h
    split at h
    · cases h
      exact holdsAt_mono_const_iff
    · cases h
      rw [← holdsAt_mono_const_iff]
      exact exists_congr fun _ => and_comm
    · cases h
  obtain ⟨v, hv, hs⟩ := bind_eq_ok_iff.1 hs
  obtain ⟨hm, rfl⟩ := divide_eq_ok_iff.1 hv
  cases hs
  rw [heq, Solution.equation, Expr.unknown, holdsAt_mono_const_iff, one_mul, eq_div_iff hm,
    mul_comm]

/-! ## The whole working -/

/-- The steps lead from an equation to a solution, each of them by the law of its kind. -/
inductive Worked : Equation → List Step → Solution → Prop
  /-- a reduction, and the solution that holds where its result does -/
  | solved {eq reduced s} : eq.SameSides reduced →
      (∀ env, s.equation.HoldsAt env ↔ reduced.HoldsAt env) →
      Worked eq [⟨.reduction, reduced⟩, ⟨.solution, s.equation⟩] s
  /-- a reduction and a migration of its result, with which the other steps begin -/
  | migrated {eq reduced moved steps s} : eq.SameSides reduced → reduced.SameDifference moved →
      moved.Separated → Worked moved steps s →
      Worked eq (⟨.reduction, reduced⟩ :: ⟨.migration, moved⟩ :: steps) s

/-- The last step is the solution. -/
theorem Worked.getLast?_eq {eq : Equation} {steps : List Step} {s : Solution}
    (h : Worked eq steps s) : steps.getLast? = some ⟨.solution, s.equation⟩ := by
  induction h with
  | solved => rfl
  | migrated _ _ _ _ ih =>
    rw [List.getLast?_cons, List.getLast?_cons, ih]
    rfl

/-- **The solution holds where the equation holds.** -/
theorem Worked.holdsAt_iff {eq : Equation} {steps : List Step} {s : Solution}
    (h : Worked eq steps s) (env : Char → Rat) : s.equation.HoldsAt env ↔ eq.HoldsAt env := by
  induction h with
  | solved hred hsol => exact (hsol env).trans (hred.sameDifference.holdsAt_iff env)
  | migrated hred hmig _ _ ih =>
    exact ih.trans ((hmig.holdsAt_iff env).trans (hred.sameDifference.holdsAt_iff env))

/-- **Every step of a run of passes follows from the one before it.** -/
theorem worked_of_runPasses {limit left : Nat} {eq : Equation} {r : Resolution} {n : Char}
    (hn : ∀ c ∈ eq.occurrences, c = n) (h : eq.runPasses limit left = .ok r) :
    Worked eq r.steps r.solution := by
  induction left generalizing eq r with
  | zero => cases h
  | succ left ih =>
    -- the equation is affine, so both of its sides have values everywhere
    obtain ⟨a, b, -, haff, -⟩ := isAffine_of_runPasses h
    obtain ⟨reduced, hred, hcase⟩ := runPasses_succ_eq_ok_iff.1 h
    have hsides : eq.SameSides reduced :=
      sameSides_of_reduce hn (fun env => ⟨_, haff.difference?_eq hn env⟩) hred
    rcases hcase with ⟨m, q, s, hi, hs, rfl⟩ | ⟨-, moved, hm, -, r', hr, rfl⟩
    · exact .solved hsides (holdsAt_isolate_iff hi hs)
    · have hdiff : reduced.SameDifference moved := by
        intro env
        obtain ⟨d, -, hd⟩ := hsides.sameDifference env
        exact ⟨d, hd, (difference?_of_migrate env hm).trans hd⟩
      have hn' : ∀ c ∈ moved.occurrences, c = n := by
        intro c hc
        obtain ⟨hol, hor⟩ := occurrences_of_migrate hm
        rw [occurrences, hol, hor, List.append_nil] at hc
        exact hn c (occurrences_subset_of_reduce hred hc)
      exact .migrated hsides hdiff (separated_of_migrate hm) (ih hn' hr)

/-- **The working is faithful.**  Reductions keep the values of both sides, migrations the
    difference of the sides; the last step is the solution, which holds where the equation does. -/
theorem worked_of_solve {passes : Nat} {eq : Equation} {r : Resolution}
    (h : eq.solve passes = .ok r) : Worked eq r.steps r.solution ∧
      r.steps.getLast? = some ⟨.solution, r.solution.equation⟩ ∧
      ∀ env, r.solution.equation.HoldsAt env ↔ eq.HoldsAt env := by
  obtain ⟨_, hu, hr⟩ := bind_eq_ok_iff.1 h
  have hw : Worked eq r.steps r.solution := by
    rcases checkUnknown_cases eq with ⟨-, he⟩ | ⟨n, hocc, -⟩ | ⟨c, d, -, he⟩
    · rw [he] at hu; cases hu
    · exact worked_of_runPasses (fun c hc => (hocc c).1 hc) hr
    · rw [he] at hu; cases hu
  exact ⟨hw, hw.getLast?_eq, hw.holdsAt_iff⟩

theorem worked_of_solve_nestedDifference : ∃ r, nestedDifference.solve 2 = .ok r ∧
    r.steps.map (·.kind) = [.reduction, .migration, .reduction, .solution] ∧
    Worked nestedDifference r.steps r.solution ∧
    ∀ env, r.solution.equation.HoldsAt env ↔ nestedDifference.HoldsAt env := by
  have hs : (nestedDifference.solve 2).toOption.map (fun r => r.steps.map (·.kind)) =
      some [.reduction, .migration, .reduction, .solution] := by
    decide +kernel
  cases h : nestedDifference.solve 2 with
  | error err => rw [h] at hs; cases hs
  | ok r =>
    rw [h] at hs
    obtain ⟨hw, -, hiff⟩ := worked_of_solve h
    exact ⟨r, rfl, Option.some.inj hs, hw, hiff⟩

end OneUnknown.Equation
