/-
  Reduction keeps the value of an expression, and the places where it has none.

  * `value?_scale`, `Combined.value?`: a multiplier and each rule of reduction keep the value; the
    rule that adds two monomials does so if they stand for the same number, hence the assignment
    `fun _ => t`.
  * `value?_of_reduce`: so does reduction, also where other unknowns have other values
    (`value?_of_reduce_of_forall_eq`).
  * `reduce_eq_error_iff`: reduction fails iff some divisor without an unknown is zero
    (`HasZeroDivisor`), and with no other error.
-/
import Mathlib.Algebra.Field.Rat
import OneUnknown.Proofs.NormalForm

namespace OneUnknown.Expr

/-! ## Multipliers -/

theorem toOption_divide_mul (k a b : Rat) :
    (divide (k * a) b).toOption = (divide a b).toOption.map (k * ·) := by
  unfold divide
  split
  · rfl
  · exact congrArg some (mul_div_assoc k a b)

/-- **A multiplier multiplies the value**, where there is one. -/
theorem value?_scale {env : Char → Rat} (k : Rat) (e : Expr) :
    (e.scale k).value? env = (e.value? env).map (k * ·) := by
  induction e with
  | const q => rfl
  | mono m => exact congrArg some (mul_assoc ..)
  | bin op l r ihl ihr =>
    cases op with
    | add | sub | mul =>
      simp only [scale, value?_bin, ihl, ihr]
      cases l.value? env <;> cases r.value? env <;>
        simp [Op.apply, Except.toOption, mul_add, mul_sub, mul_assoc]
    | div =>
      simp only [scale, value?_bin, ihl]
      cases l.value? env <;> cases r.value? env <;> simp [Op.apply, toOption_divide_mul]

/-! ## Reduction -/

section
variable (t : Rat)

/-- Each rule of reduction keeps the value. -/
theorem Combined.value? {op : Op} {l r f : Expr} (h : Combined op l r f) :
    f.value? (fun _ => t) = (bin op l r).value? fun _ => t := by
  cases h with
  | sum => rfl
  | difference => rfl
  | like => exact congrArg some (add_mul ..)
  | leftFactor =>
    rw [value?_scale, value?_bin]
    cases r.value? fun _ => t <;> rfl
  | @rightFactor _ k =>
    rw [value?_scale, value?_bin]
    cases l.value? fun _ => t with
    | none => rfl
    | some a => exact congrArg some (mul_comm k a)
  | @divisor _ k hk =>
    rw [value?_scale, value?_bin]
    cases l.value? fun _ => t with
    | none => rfl
    | some a =>
      have hd : divide a k = .ok (a / k) := divide_eq_ok_iff.2 ⟨hk, rfl⟩
      simp only [Expr.value?, Option.bind_some, Op.apply, hd, Option.map_some, Except.toOption]
      rw [one_div_mul_eq_div]
  | kept => rfl

/-- **Reduction keeps the value**, and whether there is one. -/
theorem value?_of_reduce {e f : Expr} (h : e.reduce = .ok f) :
    f.value? (fun _ => t) = e.value? fun _ => t := by
  induction e generalizing f with
  | const q => cases h; rfl
  | mono m => cases h; rfl
  | bin op l r ihl ihr =>
    obtain ⟨l', hl, r', hr, hf⟩ := reduce_bin_eq_ok_iff.1 h
    rw [(combined_of_combine hf).value?, value?_bin, value?_bin, ihl hl, ihr hr]

/-- Other assignments do as well, if the unknowns of the expression have one value there. -/
theorem value?_of_reduce_of_forall_eq {env : Char → Rat} {e f : Expr}
    (henv : ∀ c ∈ e.occurrences, env c = t) (h : e.reduce = .ok f) :
    f.value? env = e.value? env := by
  calc f.value? env
      _ = f.value? fun _ => t := value?_congr fun c hc => henv c (occurrences_subset_of_reduce h hc)
      _ = e.value? fun _ => t := value?_of_reduce t h
      _ = e.value? env := (value?_congr henv).symm

end

/-! ## Zero divisors -/

/-- Some divisor has no unknown and is zero. -/
def HasZeroDivisor (e : Expr) : Prop :=
  ∃ l r, bin .div l r ∈ e.nodes ∧ r.occurrences = [] ∧ ∀ env, r.value? env = some 0

theorem hasZeroDivisor_bin_iff {op : Op} {l r : Expr} :
    (bin op l r).HasZeroDivisor ↔ l.HasZeroDivisor ∨ r.HasZeroDivisor ∨
      op = .div ∧ r.occurrences = [] ∧ ∀ env, r.value? env = some 0 := by
  simp only [HasZeroDivisor, nodes, List.mem_cons, List.mem_append, bin.injEq]
  constructor
  · rintro ⟨l', r', ⟨rfl, rfl, rfl⟩ | h | h, hz⟩
    · exact .inr (.inr ⟨rfl, hz⟩)
    · exact .inl ⟨l', r', h, hz⟩
    · exact .inr (.inl ⟨l', r', h, hz⟩)
  · rintro (⟨l', r', h, hz⟩ | ⟨l', r', h, hz⟩ | ⟨rfl, hz⟩)
    · exact ⟨l', r', .inr (.inl h), hz⟩
    · exact ⟨l', r', .inr (.inr h), hz⟩
    · exact ⟨l, r, .inl ⟨rfl, rfl, rfl⟩, hz⟩

theorem not_hasZeroDivisor_of_reduce {e f : Expr} (h : e.reduce = .ok f) :
    ¬ e.HasZeroDivisor := by
  induction e generalizing f with
  | const q => simp [HasZeroDivisor, nodes]
  | mono m => simp [HasZeroDivisor, nodes]
  | bin op l r ihl ihr =>
    obtain ⟨l', hl, r', hr, hf⟩ := reduce_bin_eq_ok_iff.1 h
    rw [hasZeroDivisor_bin_iff]
    rintro (hz | hz | ⟨rfl, ho, hv⟩)
    · exact ihl hl hz
    · exact ihr hr hz
    · obtain ⟨q, rfl⟩ := (exists_eq_const_iff_of_reduce hr).2 ho
      have hq := value?_of_reduce 0 hr
      rw [hv] at hq
      cases hq
      rw [combine_eq_error_iff.2 ⟨rfl, rfl, rfl⟩] at hf
      cases hf

theorem hasZeroDivisor_of_reduce_eq_error {e : Expr} {err : Error} (h : e.reduce = .error err) :
    err = .divisionByZero ∧ e.HasZeroDivisor := by
  induction e generalizing err with
  | const q => cases h
  | mono m => cases h
  | bin op l r ihl ihr =>
    rw [reduce, bind_eq_error_iff] at h
    rw [hasZeroDivisor_bin_iff]
    rcases h with h | ⟨l', hl, h⟩
    · exact (ihl h).imp_right .inl
    rcases bind_eq_error_iff.1 h with h | ⟨r', hr, h⟩
    · exact (ihr h).imp_right fun hz => .inr (.inl hz)
    obtain ⟨rfl, rfl, rfl⟩ := combine_eq_error_iff.1 h
    have ho := (exists_eq_const_iff_of_reduce hr).1 ⟨0, rfl⟩
    refine ⟨rfl, .inr (.inr ⟨rfl, ho, fun env => ?_⟩)⟩
    rw [value?_eq_of_occurrences_eq_nil ho, ← value?_of_reduce 0 hr]
    rfl

/-- **Reduction fails iff some divisor without an unknown is zero.** -/
theorem reduce_eq_error_iff {e : Expr} {err : Error} :
    e.reduce = .error err ↔ err = .divisionByZero ∧ e.HasZeroDivisor := by
  refine ⟨hasZeroDivisor_of_reduce_eq_error, fun ⟨he, hz⟩ => ?_⟩
  cases h : e.reduce with
  | ok f => exact absurd hz (not_hasZeroDivisor_of_reduce h)
  | error err' => rw [he, (hasZeroDivisor_of_reduce_eq_error h).1]

end OneUnknown.Expr
