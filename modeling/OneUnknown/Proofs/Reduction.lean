/-
  What reduction makes of an expression, linear or not.

  * `HasZeroDivisor.value?_eq_none`: an expression with a zero divisor has no value anywhere, so a
    reduction that fails takes nothing away.
  * `reduce_outcome`: the reduced form has the value of the expression, and its unknowns are among
    those of the expression; or there is no reduced form, and no value under any assignment.
  * `normal_of_reduce`: no operation in the reduced form, at any depth, could be carried out, and
    reducing it again changes nothing.  It is a constant iff no unknown occurs in the expression.
-/
import OneUnknown.Proofs.Evaluation

namespace OneUnknown.Expr

/-! ## Values -/

/-- **A zero divisor anywhere leaves no value**, whatever the unknowns are. -/
theorem HasZeroDivisor.value?_eq_none {e : Expr} (h : e.HasZeroDivisor) (env : Char → Rat) :
    e.value? env = none := by
  induction e with
  | const q => simp [HasZeroDivisor, nodes] at h
  | mono m => simp [HasZeroDivisor, nodes] at h
  | bin op l r ihl ihr =>
    rw [value?_bin]
    rcases hasZeroDivisor_bin_iff.1 h with hz | hz | ⟨rfl, -, hr⟩
    · rw [ihl hz]
      rfl
    · rw [ihr hz]
      cases l.value? env <;> rfl
    · have hd : ∀ a, divide a 0 = .error .divisionByZero :=
        fun a => divide_eq_error_iff.2 ⟨rfl, rfl⟩
      rw [hr env]
      cases l.value? env with
      | none => rfl
      | some a => exact congrArg Except.toOption (hd a)

/-- **Reduction keeps the value, or there is none.**  It keeps it wherever the unknowns of the
    expression all have one value. -/
theorem reduce_outcome {e : Expr} {env : Char → Rat} {t : Rat}
    (henv : ∀ c ∈ e.occurrences, env c = t) :
    (∃ f, e.reduce = .ok f ∧ f.value? env = e.value? env ∧
      ∀ c ∈ f.occurrences, c ∈ e.occurrences) ∨
    (e.reduce = .error .divisionByZero ∧ ∀ env', e.value? env' = none) := by
  cases h : e.reduce with
  | ok f =>
    have hv : f.value? env = e.value? env := value?_of_reduce_of_forall_eq t henv h
    have ho : f.occurrences ⊆ e.occurrences := occurrences_subset_of_reduce h
    exact .inl ⟨f, rfl, hv, ho⟩
  | error err =>
    obtain ⟨rfl, hz⟩ := reduce_eq_error_iff.1 h
    exact .inr ⟨rfl, hz.value?_eq_none⟩

/-- `0 * ((2 + 3) * x - 1 / x)` -/
def zeroMultiple : Expr :=
  .bin .mul (.const 0) (.bin .sub (.bin .mul (.bin .add (.const 2) (.const 3)) (.unknown 'x'))
    (.bin .div (.const 1) (.unknown 'x')))

/-- `0x - 0 / x` -/
def zeroMultipleReduced : Expr :=
  .bin .sub (.mono ⟨'x', 0⟩) (.bin .div (.const 0) (.unknown 'x'))

theorem reduce_zeroMultiple : zeroMultiple.reduce = .ok zeroMultipleReduced := by
  decide +kernel

/-- The factor zero does not hide that there is no value at zero. -/
theorem reduce_outcome_zeroMultiple : (∀ c ∈ zeroMultiple.occurrences, (fun _ => 0) c = (0 : Rat)) ∧
    zeroMultiple.reduce = .ok zeroMultipleReduced ∧
    zeroMultipleReduced.value? (fun _ => 0) = none ∧ zeroMultiple.value? (fun _ => 0) = none := by
  have henv : ∀ c ∈ zeroMultiple.occurrences, (fun _ => 0) c = (0 : Rat) := fun _ _ => rfl
  have hv : zeroMultiple.value? (fun _ => 0) = none := by decide +kernel
  refine ⟨henv, reduce_zeroMultiple, ?_, hv⟩
  rcases reduce_outcome henv with ⟨f, hf, hvf, -⟩ | ⟨he, -⟩
  · rw [reduce_zeroMultiple] at hf
    cases hf
    rw [hvf, hv]
  · rw [reduce_zeroMultiple] at he
    cases he

/-! ## Normal forms -/

/-- At no depth does a reduced expression have an operation that could be carried out. -/
theorem Reduced.not_redex_of_mem {e : Expr} (h : e.Reduced) {op : Op} {l r : Expr}
    (hmem : .bin op l r ∈ e.nodes) : ¬ Redex op l r := by
  induction h with
  | const => simp [nodes] at hmem
  | mono => simp [nodes] at hmem
  | bin _ _ hn ihl ihr =>
    simp only [nodes, List.mem_cons, List.mem_append, bin.injEq] at hmem
    rcases hmem with ⟨rfl, rfl, rfl⟩ | hmem | hmem
    · exact hn
    · exact ihl hmem
    · exact ihr hmem

/-- **What reduction returns is a normal form.**  No operation is left to be carried out, none is
    carried out by reducing again, and the last unknown is never lost. -/
theorem normal_of_reduce {e f : Expr} (h : e.reduce = .ok f) :
    (∀ op l r, bin op l r ∈ f.nodes → ¬ Redex op l r ∧ combine op l r = .ok (bin op l r)) ∧
    f.reduce = .ok f ∧ ((∃ q, f = const q) ↔ e.occurrences = []) := by
  have hf : f.Reduced := reduced_of_reduce h
  refine ⟨fun op l r hmem => ?_, reduce_of_reduced hf, exists_eq_const_iff_of_reduce h⟩
  have hn : ¬ Redex op l r := hf.not_redex_of_mem hmem
  exact ⟨hn, combine_of_not_redex hn⟩

/-- A factor zero leaves the unknown in place. -/
theorem normal_of_reduce_zeroMultiple : zeroMultiple.reduce = .ok zeroMultipleReduced ∧
    zeroMultipleReduced.reduce = .ok zeroMultipleReduced ∧ ∀ q, zeroMultipleReduced ≠ const q := by
  obtain ⟨-, hf, hconst⟩ := normal_of_reduce reduce_zeroMultiple
  refine ⟨reduce_zeroMultiple, hf, fun q hq => ?_⟩
  have ho : zeroMultiple.occurrences = [] := hconst.1 ⟨q, hq⟩
  cases ho

end OneUnknown.Expr
