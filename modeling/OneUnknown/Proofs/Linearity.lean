/-
  Which expressions are linear in the unknown, told from the tree, and what that means for the
  reduced form and for the value.

  * `NonLinear`: some product has an unknown in both factors, or some quotient has one in its
    divisor.
  * `firstProduct?_of_reduce`: the reduced form is a sum of constants and monomials iff the
    expression is linear.
  * `exists_isAffine_of_reduce`: then its value is `a * t + b`.
-/
import OneUnknown.Proofs.Terms

namespace OneUnknown.Expr

/-! ## Products and quotients of unknowns -/

/-- An unknown stands in both factors of a product, or in the divisor of a quotient. -/
def NonLinear (e : Expr) : Prop :=
  ∃ l r, bin .mul l r ∈ e.nodes ∧ l.occurrences ≠ [] ∧ r.occurrences ≠ [] ∨
    bin .div l r ∈ e.nodes ∧ r.occurrences ≠ []

theorem nonLinear_bin_iff {op : Op} {l r : Expr} :
    (bin op l r).NonLinear ↔ l.NonLinear ∨ r.NonLinear ∨
      op = .mul ∧ l.occurrences ≠ [] ∧ r.occurrences ≠ [] ∨ op = .div ∧ r.occurrences ≠ [] := by
  simp only [NonLinear, nodes, List.mem_cons, List.mem_append, bin.injEq]
  constructor
  · rintro ⟨l', r', ⟨⟨rfl, rfl, rfl⟩ | h | h, hz⟩ | ⟨⟨rfl, rfl, rfl⟩ | h | h, hz⟩⟩
    · exact .inr (.inr (.inl ⟨rfl, hz⟩))
    · exact .inl ⟨l', r', .inl ⟨h, hz⟩⟩
    · exact .inr (.inl ⟨l', r', .inl ⟨h, hz⟩⟩)
    · exact .inr (.inr (.inr ⟨rfl, hz⟩))
    · exact .inl ⟨l', r', .inr ⟨h, hz⟩⟩
    · exact .inr (.inl ⟨l', r', .inr ⟨h, hz⟩⟩)
  · rintro (⟨l', r', ⟨h, hz⟩ | ⟨h, hz⟩⟩ | ⟨l', r', ⟨h, hz⟩ | ⟨h, hz⟩⟩ | ⟨rfl, hz⟩ | ⟨rfl, hz⟩)
    · exact ⟨l', r', .inl ⟨.inr (.inl h), hz⟩⟩
    · exact ⟨l', r', .inr ⟨.inr (.inl h), hz⟩⟩
    · exact ⟨l', r', .inl ⟨.inr (.inr h), hz⟩⟩
    · exact ⟨l', r', .inr ⟨.inr (.inr h), hz⟩⟩
    · exact ⟨l, r, .inl ⟨.inl ⟨rfl, rfl, rfl⟩, hz⟩⟩
    · exact ⟨l, r, .inr ⟨.inl ⟨rfl, rfl, rfl⟩, hz⟩⟩

theorem firstProduct?_skeleton_eq_none_iff {e : Expr} :
    e.skeleton.firstProduct? = none ↔ e.firstProduct? = none := by
  induction e with
  | const q => rfl
  | mono m => rfl
  | bin op l r ihl ihr => cases op <;> simp_all [skeleton, firstProduct?]

theorem firstProduct?_scale_eq_none_iff {k : Rat} {e : Expr} :
    (e.scale k).firstProduct? = none ↔ e.firstProduct? = none := by
  rw [← firstProduct?_skeleton_eq_none_iff, skeleton_scale, firstProduct?_skeleton_eq_none_iff]

/-- **The reduced form has no product or quotient in the way iff the expression is linear.** -/
theorem firstProduct?_of_reduce {e f : Expr} (h : e.reduce = .ok f) :
    f.firstProduct? = none ↔ ¬ e.NonLinear := by
  induction e generalizing f with
  | const q => cases h; simp [firstProduct?, NonLinear, nodes]
  | mono m => cases h; simp [firstProduct?, NonLinear, nodes]
  | bin op l r ihl ihr =>
    obtain ⟨l', hl, r', hr, hf⟩ := reduce_bin_eq_ok_iff.1 h
    have hlc := exists_eq_const_iff_of_reduce hl
    have hrc := exists_eq_const_iff_of_reduce hr
    replace ihl := ihl hl
    replace ihr := ihr hr
    rw [nonLinear_bin_iff]
    cases combined_of_combine hf with
    | sum => simp_all [firstProduct?]
    | difference => simp_all [firstProduct?]
    | like => simp_all [firstProduct?]
    | leftFactor => simp_all [firstProduct?_scale_eq_none_iff, firstProduct?]
    | rightFactor => simp_all [firstProduct?_scale_eq_none_iff, firstProduct?]
    | divisor => simp_all [firstProduct?_scale_eq_none_iff, firstProduct?]
    | kept hn =>
      cases op with
      | add => simp_all [firstProduct?]
      | sub => simp_all [firstProduct?]
      | mul =>
        have hl₀ : l.occurrences ≠ [] := fun ho => by
          obtain ⟨q, rfl⟩ := hlc.2 ho
          exact hn .leftFactor
        have hr₀ : r.occurrences ≠ [] := fun ho => by
          obtain ⟨q, rfl⟩ := hrc.2 ho
          exact hn .rightFactor
        simp [firstProduct?, hl₀, hr₀]
      | div =>
        have hr₀ : r.occurrences ≠ [] := fun ho => by
          obtain ⟨q, rfl⟩ := hrc.2 ho
          exact hn .divisor
        simp [firstProduct?, hr₀]

/-! ## Affine values -/

/-- Where the unknown is `t`, the value is `a * t + b`. -/
def IsAffine (a b : Rat) (e : Expr) : Prop :=
  ∀ t, e.value? (fun _ => t) = some (a * t + b)

theorem exists_isAffine {e : Expr} (h : e.firstProduct? = none) : ∃ a b, e.IsAffine a b := by
  induction e with
  | const q => exact ⟨0, q, fun t => by simp [value?]⟩
  | mono m => exact ⟨m.coef, 0, fun t => by simp [value?]⟩
  | bin op l r ihl ihr =>
    cases op with
    | add =>
      obtain ⟨hl, hr⟩ := Option.or_eq_none_iff.1 h
      obtain ⟨a, b, hl⟩ := ihl hl
      obtain ⟨c, d, hr⟩ := ihr hr
      refine ⟨a + c, b + d, fun t => ?_⟩
      rw [value?_bin, hl, hr]
      exact congrArg some (by ring)
    | sub =>
      obtain ⟨hl, hr⟩ := Option.or_eq_none_iff.1 h
      obtain ⟨a, b, hl⟩ := ihl hl
      obtain ⟨c, d, hr⟩ := ihr hr
      refine ⟨a - c, b - d, fun t => ?_⟩
      rw [value?_bin, hl, hr]
      exact congrArg some (by ring)
    | mul => cases h
    | div => cases h

/-- **A linear expression that reduces has an affine value.** -/
theorem exists_isAffine_of_reduce {e f : Expr} (h : e.reduce = .ok f) (hn : ¬ e.NonLinear) :
    ∃ a b, e.IsAffine a b := by
  obtain ⟨a, b, hf⟩ := exists_isAffine ((firstProduct?_of_reduce h).2 hn)
  exact ⟨a, b, fun t => (value?_of_reduce t h).symm.trans (hf t)⟩

end OneUnknown.Expr
