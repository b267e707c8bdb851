/-
  How many passes an equation takes: one or two, whatever the limit.

  * `Expr.IsSum`: sums and differences of leaves, the expressions that migrate.
  * `NeedsMigration`: the first pass leaves such sums on both sides, and the unknown is not
    isolated.  Without that, the first pass settles the equation (`exists_settled_of_first`); with
    it, the second one does (`exists_settled_of_second`).
  * `solve_eq_of_two_le`: so all limits from two on give the same result, and a limit of one gives
    it too, unless a migration is needed.
-/
import OneUnknown.Proofs.Solving

namespace OneUnknown

namespace Expr

/-- Leaves under sums and differences only. -/
inductive IsSum : Expr → Prop
  | const {q} : IsSum (const q)
  | mono {m} : IsSum (mono m)
  | add {l r} : IsSum l → IsSum r → IsSum (bin .add l r)
  | sub {l r} : IsSum l → IsSum r → IsSum (bin .sub l r)

theorem isSum_iff {e : Expr} : e.IsSum ↔ e.firstProduct? = none := by
  constructor
  · intro h
    induction h with
    | const => rfl
    | mono => rfl
    | add _ _ ihl ihr => exact Option.or_eq_none_iff.2 ⟨ihl, ihr⟩
    | sub _ _ ihl ihr => exact Option.or_eq_none_iff.2 ⟨ihl, ihr⟩
  · intro h
    induction e with
    | const q => exact .const
    | mono m => exact .mono
    | bin op l r ihl ihr =>
      cases op with
      | add =>
        obtain ⟨hl, hr⟩ := Option.or_eq_none_iff.1 h
        exact .add (ihl hl) (ihr hr)
      | sub =>
        obtain ⟨hl, hr⟩ := Option.or_eq_none_iff.1 h
        exact .sub (ihl hl) (ihr hr)
      | mul => cases h
      | div => cases h

end Expr

namespace Equation

/-! ## Settled equations -/

/-- A resolution with steps of these kinds, or an error that is not for want of passes. -/
def Settled (kinds : List StepKind) : Except Error Resolution → Prop
  | .ok r => r.steps.map (·.kind) = kinds
  | .error err => ∀ k, err ≠ .noProgress k

theorem settled_isolate (reduced : Equation) (m : Monomial) (q : Rat) :
    Settled [.reduction, .solution] ((isolate m q).map fun s =>
      ⟨s, [⟨.reduction, reduced⟩, ⟨.solution, s.equation⟩]⟩) := by
  cases h : isolate m q with
  | ok s => exact rfl
  | error err =>
    rcases bind_eq_error_iff.1 h with h | ⟨v, -, h⟩
    · obtain ⟨-, rfl⟩ := divide_eq_error_iff.1 h
      rintro k ⟨⟩
    · cases h

theorem Settled.migrated {kinds : List StepKind} {x : Except Error Resolution}
    (h : Settled kinds x) (reduced moved : Equation) :
    Settled (.reduction :: .migration :: kinds) (x.map fun r =>
      { r with steps := ⟨.reduction, reduced⟩ :: ⟨.migration, moved⟩ :: r.steps }) := by
  cases x with
  | ok r => exact congrArg (StepKind.reduction :: StepKind.migration :: ·) h
  | error err => exact h

/-! ## The first pass and the second -/

/-- The first pass ends with sums of leaves on both sides and without an isolated unknown. -/
def NeedsMigration (eq : Equation) : Prop :=
  ∃ reduced, eq.reduce = .ok reduced ∧ reduced.isolated? = none ∧
    reduced.left.IsSum ∧ reduced.right.IsSum

/-- Where no migration is needed, the first pass settles the equation. -/
theorem exists_settled_of_first {eq : Equation} (h : ¬ eq.NeedsMigration) :
    ∃ x, Settled [.reduction, .solution] x ∧
      ∀ limit left, eq.runPasses limit (left + 1) = x := by
  cases hred : eq.reduce with
  | error err =>
    refine ⟨.error err, ?_, fun limit left => by rw [runPasses, hred]; rfl⟩
    obtain ⟨rfl, -⟩ := reduce_eq_error_iff.1 hred
    rintro k ⟨⟩
  | ok reduced =>
    cases hi : reduced.isolated? with
    | some mq =>
      obtain ⟨m, q⟩ := mq
      exact ⟨_, settled_isolate reduced m q, fun limit left => runPasses_of_isolated? hred hi⟩
    | none =>
      -- a product or quotient is in the way of a migration
      have hp : reduced.left.firstProduct?.or reduced.right.firstProduct? ≠ none := by
        intro hp
        obtain ⟨hl, hr⟩ := Option.or_eq_none_iff.1 hp
        exact h ⟨reduced, hred, hi, Expr.isSum_iff.2 hl, Expr.isSum_iff.2 hr⟩
      obtain ⟨p, hp⟩ := Option.ne_none_iff_exists'.1 hp
      refine ⟨.error (.nonLinearTerm p), ?_, fun limit left => runPasses_of_firstProduct? hred hp⟩
      rintro k ⟨⟩

/-- Where a migration is needed, the first pass does not settle the equation, the second does. -/
theorem exists_settled_of_second {eq : Equation} (ho : eq.occurrences ≠ [])
    (h : eq.NeedsMigration) :
    ∃ x, Settled [.reduction, .migration, .reduction, .solution] x ∧
      ∀ limit, eq.runPasses limit 1 = .error (.noProgress limit) ∧
        ∀ left, eq.runPasses limit (left + 2) = x := by
  obtain ⟨reduced, hred, hi, hl, hr⟩ := h
  have ho' : reduced.occurrences ≠ [] := fun hn => ho ((occurrences_eq_nil_iff_of_reduce hred).1 hn)
  obtain ⟨moved, hm⟩ := exists_migrate (Expr.isSum_iff.1 hl) (Expr.isSum_iff.1 hr) ho'
  obtain ⟨m, q, hmr⟩ := reduce_of_migrate hm
  refine ⟨_, (settled_isolate ⟨.mono m, .const q⟩ m q).migrated reduced moved,
    fun limit => ⟨?_, fun left => ?_⟩⟩
  · rw [runPasses_of_migrate hred hi hm]
    rfl
  · rw [runPasses_of_migrate hred hi hm, runPasses_of_isolated? hmr rfl]

/-! ## The limit -/

/-- With one unknown, solving starts with the passes. -/
theorem solve_eq_runPasses {eq : Equation} (hu : eq.checkUnknown = .ok ()) (passes : Nat) :
    eq.solve passes = eq.runPasses passes passes := by
  rw [solve, hu]
  rfl

theorem solve_eq_error {eq : Equation} {err : Error} (hu : eq.checkUnknown = .error err)
    (passes : Nat) : eq.solve passes = .error err := by
  rw [solve, hu]
  rfl

/-- An equation that is not refused before the passes has exactly one unknown. -/
theorem checkUnknown_eq_ok_iff {eq : Equation} :
    eq.checkUnknown = .ok () ↔ ∃ n, ∀ c, c ∈ eq.occurrences ↔ c = n := by
  rcases checkUnknown_cases eq with ⟨ho, hu⟩ | ⟨n, hn, hu⟩ | ⟨a, b, hab, hu⟩
  · simp [hu, ho]
  · simp only [hu, true_iff]
    exact ⟨n, hn⟩
  · simp only [hu, reduceCtorEq, false_iff, not_exists]
    intro n hn
    exact Char.ne_of_lt hab.2.2.1 (((hn a).1 hab.1).trans ((hn b).1 hab.2.1).symm)

/-- The results of solving an equation under all limits: one for two passes or more, and for a
    single pass either the same or the want of another. -/
theorem exists_solve_eq (eq : Equation) : ∃ x,
    (Settled [.reduction, .solution] x ∨
      Settled [.reduction, .migration, .reduction, .solution] x) ∧
    (∀ left, eq.solve (left + 2) = x) ∧
    (eq.checkUnknown = .ok () ∧ eq.NeedsMigration → eq.solve 1 = .error (.noProgress 1)) ∧
    (¬ (eq.checkUnknown = .ok () ∧ eq.NeedsMigration) → eq.solve 1 = x) := by
  cases hu : eq.checkUnknown with
  | error err =>
    refine ⟨.error err, .inl ?_, fun left => solve_eq_error hu _, ?_, fun _ => solve_eq_error hu _⟩
    · rcases checkUnknown_cases eq with ⟨-, hu'⟩ | ⟨n, -, hu'⟩ | ⟨a, b, -, hu'⟩
      · rw [hu] at hu'; cases hu'; rintro k ⟨⟩
      · rw [hu] at hu'; cases hu'
      · rw [hu] at hu'; cases hu'; rintro k ⟨⟩
    · rintro ⟨⟨⟩, -⟩
  | ok u =>
    have hs := solve_eq_runPasses hu
    by_cases hn : eq.NeedsMigration
    · obtain ⟨n, hocc⟩ := checkUnknown_eq_ok_iff.1 hu
      have ho : eq.occurrences ≠ [] := List.ne_nil_of_mem ((hocc n).2 rfl)
      obtain ⟨x, hx, hrun⟩ := exists_settled_of_second ho hn
      refine ⟨x, .inr hx, fun left => (hs _).trans ((hrun _).2 left),
        fun _ => (hs 1).trans (hrun 1).1, fun h => absurd ⟨rfl, hn⟩ h⟩
    · obtain ⟨x, hx, hrun⟩ := exists_settled_of_first hn
      exact ⟨x, .inl hx, fun left => (hs _).trans (hrun _ (left + 1)), fun h => absurd h.2 hn,
        fun _ => (hs 1).trans (hrun 1 0)⟩

/-- **Two passes are always enough**, and from two on the limit does not show.  Whatever equation
    a pass starts from, what migrates is not what it migrates to. -/
theorem solve_eq_of_two_le (eq : Equation) :
    (∀ p q, 2 ≤ p → 2 ≤ q → eq.solve p = eq.solve q) ∧
    (∀ p k, 2 ≤ p → eq.solve p ≠ .error (.noProgress k)) ∧
    (∀ p r, eq.solve p = .ok r → r.steps.map (·.kind) = [.reduction, .solution] ∨
      r.steps.map (·.kind) = [.reduction, .migration, .reduction, .solution]) ∧
    (eq.solve 1 = .error (.noProgress 1) ↔
      (∃ n, ∀ c, c ∈ eq.occurrences ↔ c = n) ∧ eq.NeedsMigration) ∧
    (eq.solve 1 ≠ .error (.noProgress 1) → eq.solve 1 = eq.solve 2) ∧
    ∀ start reduced moved : Equation, start.reduce = .ok reduced → reduced.isolated? = none →
      reduced.migrate = .ok moved → moved ≠ reduced := by
  obtain ⟨x, hx, htwo, hone, hone'⟩ := exists_solve_eq eq
  have hle : ∀ p, 2 ≤ p → eq.solve p = x := by
    intro p hp
    obtain ⟨left, rfl⟩ := Nat.exists_eq_add_of_le' hp
    exact htwo left
  have hnot : ∀ k, x ≠ .error (.noProgress k) := by
    rintro k rfl
    rcases hx with hx | hx <;> exact hx k rfl
  have hmig : eq.solve 1 = .error (.noProgress 1) ↔
      eq.checkUnknown = .ok () ∧ eq.NeedsMigration := by
    refine ⟨fun h => ?_, hone⟩
    by_contra hm
    exact hnot 1 ((hone' hm).symm.trans h)
  refine ⟨fun p q hp hq => (hle p hp).trans (hle q hq).symm, fun p k hp => hle p hp ▸ hnot k,
    fun p r hr => ?_, by rw [hmig, checkUnknown_eq_ok_iff], fun h => ?_,
    fun _ _ _ => ne_of_migrate⟩
  · -- an answer within any limit is the answer for two passes
    have hxr : x = .ok r := by
      match p, hr with
      | 0, hr =>
        obtain ⟨_, -, hr⟩ := bind_eq_ok_iff.1 hr
        cases hr
      | 1, hr =>
        have hm : ¬ (eq.checkUnknown = .ok () ∧ eq.NeedsMigration) := by
          intro hm
          rw [hone hm] at hr
          cases hr
        exact (hone' hm).symm.trans hr
      | p + 2, hr => exact (htwo p).symm.trans hr
    rw [hxr] at hx
    exact hx
  · exact (hone' fun hm => h (hmig.2 hm)).trans (hle 2 (Nat.le_refl 2)).symm

/-- The difference in the brackets is in the way of the unknown: one pass is not enough. -/
theorem solve_eq_of_two_le_nestedDifference : 2 ≤ 2 ∧ 2 ≤ 1024 ∧
    nestedDifference.solve 2 = nestedDifference.solve 1024 ∧
    nestedDifference.solve 1 = .error (.noProgress 1) := by
  obtain ⟨hpq, -, -, hone, -⟩ := solve_eq_of_two_le nestedDifference
  refine ⟨by decide, by decide, hpq 2 1024 (by decide) (by decide), hone.2 ⟨⟨'x', ?_⟩, ?_⟩⟩
  · simp [occurrences, nestedDifference, Expr.occurrences, Expr.unknown]
  · have hred : nestedDifference.reduce = .ok
        ⟨.bin .sub (.const 1) (.bin .sub (.const (3 / 8)) (.mono ⟨'x', 1 / 8⟩)),
          .bin .sub (.unknown 'x') (.const 1)⟩ := by
      decide +kernel
    exact ⟨_, hred, rfl, .sub .const (.sub .const .mono), .sub .mono .const⟩

end Equation

end OneUnknown
