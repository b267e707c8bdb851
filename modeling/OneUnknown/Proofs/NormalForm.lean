/-
  Reduction reaches a normal form, and keeps the unknowns.

  * `Combined op l r f`: the rules by which `op` on top of `l` and `r` becomes `f`, one constructor
    for each; `combined_of_combine` finds the rule, `combine_eq_error_iff` the one case without.
  * `reduced_of_reduce`: a reduced expression has no redex; `reduce_of_reduced`: it reduces to
    itself.
  * `occurrences_subset_of_reduce` and `occurrences_eq_nil_iff_of_reduce`: no unknown comes in, and
    the last one never goes out, not even under a factor zero.  Hence an expression reduces to a
    constant iff no unknown occurs in it (`exists_eq_const_iff_of_reduce`).
-/
import OneUnknown.Reduction

namespace OneUnknown.Expr

/-! ## The rules of reduction -/

/-- What becomes of an operation on top of two operands. -/
inductive Combined : Op → Expr → Expr → Expr → Prop
  | sum {a b} : Combined .add (const a) (const b) (const (a + b))
  | difference {a b} : Combined .sub (const a) (const b) (const (a - b))
  | like {m n} : Combined .add (mono m) (mono n) (mono { m with coef := m.coef + n.coef })
  | leftFactor {k r} : Combined .mul (const k) r (r.scale k)
  | rightFactor {l k} : Combined .mul l (const k) (l.scale k)
  | divisor {l k} : k ≠ 0 → Combined .div l (const k) (l.scale (1 / k))
  | kept {op l r} : ¬ Redex op l r → Combined op l r (bin op l r)

/-- **The result of an operation comes from one of the rules.** -/
theorem combined_of_combine {op : Op} {l r f : Expr} (h : combine op l r = .ok f) :
    Combined op l r f := by
  cases op with
  | add =>
    simp only [combine, Except.ok.injEq] at h
    subst h
    cases l <;> cases r <;> first | exact .sum | exact .like | exact .kept (by rintro ⟨⟩)
  | sub =>
    simp only [combine, Except.ok.injEq] at h
    subst h
    cases l <;> cases r <;> first | exact .difference | exact .kept (by rintro ⟨⟩)
  | mul =>
    simp only [combine, Except.ok.injEq] at h
    subst h
    cases l <;> cases r <;>
      first | exact .leftFactor | exact .rightFactor | exact .kept (by rintro ⟨⟩)
  | div =>
    cases r with
    | const k =>
      obtain ⟨q, hq, hf⟩ := bind_eq_ok_iff.1 (h : divide 1 k >>= _ = _)
      obtain ⟨hk, rfl⟩ := divide_eq_ok_iff.1 hq
      cases hf
      exact .divisor hk
    | mono n => cases h; exact .kept (by rintro ⟨⟩)
    | bin o s t => cases h; exact .kept (by rintro ⟨⟩)

/-- An operation fails iff it is a division by the constant zero. -/
theorem combine_eq_error_iff {op : Op} {l r : Expr} {err : Error} :
    combine op l r = .error err ↔ err = .divisionByZero ∧ op = .div ∧ r = const 0 := by
  cases op with
  | add | sub | mul => simp [combine]
  | div =>
    cases r with
    | const k =>
      have h : combine .div l (const k) = divide 1 k >>= fun q => .ok (l.scale q) := rfl
      simp [h, bind_eq_error_iff, divide_eq_error_iff, and_comm]
    | mono n => simp [combine, mkDiv]
    | bin o s t => simp [combine, mkDiv]

theorem combine_of_not_redex {op : Op} {l r : Expr} (h : ¬ Redex op l r) :
    combine op l r = .ok (bin op l r) := by
  cases op <;> cases l <;> cases r <;> first | rfl | exact absurd (by constructor) h

theorem reduce_bin_eq_ok_iff {op : Op} {l r f : Expr} :
    (bin op l r).reduce = .ok f ↔
      ∃ l', l.reduce = .ok l' ∧ ∃ r', r.reduce = .ok r' ∧ combine op l' r' = .ok f := by
  rw [reduce]
  simp only [bind_eq_ok_iff]

/-! ## Skeletons -/

/-- An expression without its numbers: its operations, which leaves are constants, and the
    unknowns of the others. -/
def skeleton : Expr → Expr
  | const _ => const 0
  | mono m => mono { m with coef := 0 }
  | bin op l r => bin op l.skeleton r.skeleton

/-- A multiplier, even zero, leaves the skeleton as it is. -/
theorem skeleton_scale (k : Rat) (e : Expr) : (e.scale k).skeleton = e.skeleton := by
  induction e with
  | const q => rfl
  | mono m => rfl
  | bin op l r ihl ihr => cases op <;> simp only [scale, skeleton, ihl, ihr]

theorem occurrences_skeleton (e : Expr) : e.skeleton.occurrences = e.occurrences := by
  induction e with
  | const q => rfl
  | mono m => rfl
  | bin op l r ihl ihr => rw [skeleton, occurrences, occurrences, ihl, ihr]

theorem occurrences_scale (k : Rat) (e : Expr) : (e.scale k).occurrences = e.occurrences := by
  rw [← occurrences_skeleton, skeleton_scale, occurrences_skeleton]

theorem redex_skeleton_iff {op : Op} {l r : Expr} :
    Redex op l.skeleton r.skeleton ↔ Redex op l r := by
  cases l <;> cases r <;> constructor <;> rintro ⟨⟩ <;> constructor

theorem reduced_bin_iff {op : Op} {l r : Expr} :
    (bin op l r).Reduced ↔ l.Reduced ∧ r.Reduced ∧ ¬ Redex op l r :=
  ⟨fun | .bin hl hr h => ⟨hl, hr, h⟩, fun ⟨hl, hr, h⟩ => .bin hl hr h⟩

theorem reduced_skeleton_iff {e : Expr} : e.skeleton.Reduced ↔ e.Reduced := by
  induction e with
  | const q => exact ⟨fun _ => .const, fun _ => .const⟩
  | mono m => exact ⟨fun _ => .mono, fun _ => .mono⟩
  | bin op l r ihl ihr =>
    rw [skeleton, reduced_bin_iff, reduced_bin_iff, ihl, ihr, redex_skeleton_iff]

theorem reduced_scale_iff {k : Rat} {e : Expr} : (e.scale k).Reduced ↔ e.Reduced := by
  rw [← reduced_skeleton_iff, skeleton_scale, reduced_skeleton_iff]

/-! ## Normal forms -/

theorem Combined.reduced {op : Op} {l r f : Expr} (h : Combined op l r f) (hl : l.Reduced)
    (hr : r.Reduced) : f.Reduced := by
  cases h with
  | sum => exact .const
  | difference => exact .const
  | like => exact .mono
  | leftFactor => exact reduced_scale_iff.2 hr
  | rightFactor => exact reduced_scale_iff.2 hl
  | divisor => exact reduced_scale_iff.2 hl
  | kept h => exact .bin hl hr h

/-- **What reduction returns has no redex.** -/
theorem reduced_of_reduce {e f : Expr} (h : e.reduce = .ok f) : f.Reduced := by
  induction e generalizing f with
  | const q => cases h; exact .const
  | mono m => cases h; exact .mono
  | bin op l r ihl ihr =>
    obtain ⟨l', hl, r', hr, hf⟩ := reduce_bin_eq_ok_iff.1 h
    exact (combined_of_combine hf).reduced (ihl hl) (ihr hr)

/-- **An expression without a redex reduces to itself.** -/
theorem reduce_of_reduced {e : Expr} (h : e.Reduced) : e.reduce = .ok e := by
  induction h with
  | const => rfl
  | mono => rfl
  | bin _ _ h ihl ihr => exact reduce_bin_eq_ok_iff.2 ⟨_, ihl, _, ihr, combine_of_not_redex h⟩

/-! ## Unknowns -/

theorem Combined.occurrences_subset {op : Op} {l r f : Expr} (h : Combined op l r f) :
    f.occurrences ⊆ l.occurrences ++ r.occurrences := by
  cases h with
  | sum => exact List.nil_subset _
  | difference => exact List.nil_subset _
  | like => exact List.subset_append_left ..
  | leftFactor => rw [occurrences_scale]; exact List.subset_append_right ..
  | rightFactor => rw [occurrences_scale]; exact List.subset_append_left ..
  | divisor => rw [occurrences_scale]; exact List.subset_append_left ..
  | kept => exact List.Subset.refl _

theorem Combined.occurrences_eq_nil_iff {op : Op} {l r f : Expr} (h : Combined op l r f) :
    f.occurrences = [] ↔ l.occurrences = [] ∧ r.occurrences = [] := by
  cases h with
  | sum => simp [occurrences]
  | difference => simp [occurrences]
  | like => simp [occurrences]
  | leftFactor => simp [occurrences_scale, occurrences]
  | rightFactor => simp [occurrences_scale, occurrences]
  | divisor => simp [occurrences_scale, occurrences]
  | kept => simp [occurrences]

/-- Reduction brings no unknown in. -/
theorem occurrences_subset_of_reduce {e f : Expr} (h : e.reduce = .ok f) :
    f.occurrences ⊆ e.occurrences := by
  induction e generalizing f with
  | const q => cases h; exact List.Subset.refl _
  | mono m => cases h; exact List.Subset.refl _
  | bin op l r ihl ihr =>
    obtain ⟨l', hl, r', hr, hf⟩ := reduce_bin_eq_ok_iff.1 h
    intro c hc
    rcases List.mem_append.1 ((combined_of_combine hf).occurrences_subset hc) with hc | hc
    · exact List.mem_append_left _ (ihl hl hc)
    · exact List.mem_append_right _ (ihr hr hc)

/-- Reduction never removes the last unknown. -/
theorem occurrences_eq_nil_iff_of_reduce {e f : Expr} (h : e.reduce = .ok f) :
    f.occurrences = [] ↔ e.occurrences = [] := by
  induction e generalizing f with
  | const q => cases h; exact Iff.rfl
  | mono m => cases h; exact Iff.rfl
  | bin op l r ihl ihr =>
    obtain ⟨l', hl, r', hr, hf⟩ := reduce_bin_eq_ok_iff.1 h
    rw [(combined_of_combine hf).occurrences_eq_nil_iff, ihl hl, ihr hr, occurrences,
      List.append_eq_nil_iff]

/-- Without a redex and without an unknown, nothing but a constant is left. -/
theorem Reduced.exists_eq_const_iff {e : Expr} (h : e.Reduced) :
    (∃ q, e = .const q) ↔ e.occurrences = [] := by
  refine ⟨fun ⟨q, hq⟩ => hq ▸ rfl, fun ho => ?_⟩
  induction h with
  | @const q => exact ⟨q, rfl⟩
  | mono => simp [occurrences] at ho
  | @bin op l r _ _ hn ihl ihr =>
    obtain ⟨hl, hr⟩ := List.append_eq_nil_iff.1 ho
    obtain ⟨a, rfl⟩ := ihl hl
    obtain ⟨b, rfl⟩ := ihr hr
    exact absurd .constants hn

/-- **An expression reduces to a constant iff no unknown occurs in it.** -/
theorem exists_eq_const_iff_of_reduce {e f : Expr} (h : e.reduce = .ok f) :
    (∃ q, f = const q) ↔ e.occurrences = [] := by
  rw [(reduced_of_reduce h).exists_eq_const_iff, occurrences_eq_nil_iff_of_reduce h]

end OneUnknown.Expr
