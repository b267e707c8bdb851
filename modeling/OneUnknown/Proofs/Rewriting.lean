/-
  Reduction by rewriting ends, and gives what reduction gives.

  * `rewriteTop_eq_combine`: a rule gives what its operation does, as soon as reducing what a factor
    was distributed over gives the multiple of it.
  * `rewrite_distribute`: on a reduced expression it does.  A distributed factor meets no operands
    that were not side by side before, so nothing is folded but the factor itself, and the calls
    nest at most twice as deep as the expression, plus two.
  * `rewrite_eq_reduce`: hence the calls end on every expression, within twice its height plus one.
-/
import OneUnknown.Proofs.Evaluation

namespace OneUnknown.Expr

/-! ## Heights -/

theorem height_skeleton (e : Expr) : e.skeleton.height = e.height := by
  induction e with
  | const q => rfl
  | mono m => rfl
  | bin op l r ihl ihr => rw [skeleton, height, height, ihl, ihr]

theorem height_scale (k : Rat) (e : Expr) : (e.scale k).height = e.height := by
  rw [← height_skeleton, skeleton_scale, height_skeleton]

theorem Combined.height_le {op : Op} {l r f : Expr} (h : Combined op l r f) :
    f.height ≤ max l.height r.height + 1 := by
  cases h with
  | sum => exact Nat.zero_le _
  | difference => exact Nat.zero_le _
  | like => exact Nat.zero_le _
  | leftFactor => rw [height_scale]; omega
  | rightFactor => rw [height_scale]; omega
  | divisor => rw [height_scale]; omega
  | kept => exact Nat.le_refl _

/-- Reduction never makes an expression higher. -/
theorem height_le_of_reduce {e f : Expr} (h : e.reduce = .ok f) : f.height ≤ e.height := by
  induction e generalizing f with
  | const q => cases h; exact Nat.le_refl _
  | mono m => cases h; exact Nat.le_refl _
  | bin op l r ihl ihr =>
    obtain ⟨l', hl, r', hr, hf⟩ := reduce_bin_eq_ok_iff.1 h
    have htop := (combined_of_combine hf).height_le
    have hl' := ihl hl
    have hr' := ihr hr
    rw [height]
    omega

/-! ## One rule -/

section
variable {again : Expr → ExceptT Error Option Expr} {op : Op} {l r : Expr}

/-- Operands that are no redex stay side by side. -/
theorem rewriteTop_of_not_redex (h : ¬ Redex op l r) :
    rewriteTop again op l r = some (.ok (bin op l r)) := by
  cases op <;> cases l <;> cases r <;> first | rfl | exact absurd (by constructor) h

/-- Dividing by `k` is multiplying by its inverse, and fails where there is none. -/
theorem divide_eq_bind (a k : Rat) : divide a k = divide 1 k >>= fun q => .ok (q * a) := by
  unfold divide
  split
  · rfl
  · exact congrArg Except.ok (one_div_mul_eq_div k a).symm

/-- **A rule gives what its operation does**, if reducing what a factor is distributed over gives
    the multiple of it. -/
theorem rewriteTop_eq_combine
    (h : ∀ k f, f = l ∨ f = r → again (f.distribute k) = some (.ok (f.scale k))) :
    rewriteTop again op l r = some (combine op l r) := by
  cases op with
  | add => cases l <;> cases r <;> rfl
  | sub => cases l <;> cases r <;> rfl
  | mul => cases l <;> cases r <;> first | rfl | exact h _ _ (.inl rfl) | exact h _ _ (.inr rfl)
  | div =>
    cases r with
    | const k =>
      have hcombine : combine .div l (const k) = divide 1 k >>= fun q => .ok (l.scale q) := rfl
      rw [hcombine]
      cases l with
      | const a =>
        simp only [rewriteTop, Op.apply, divide_eq_bind a k]
        cases divide 1 k <;> rfl
      | mono m =>
        simp only [rewriteTop, Monomial.divide, divide_eq_bind m.coef k]
        cases divide 1 k <;> rfl
      | bin o s t =>
        simp only [rewriteTop]
        cases divide 1 k with
        | error e => rfl
        | ok q => exact h q _ (.inl rfl)
    | mono m => cases l <;> rfl
    | bin o s t => cases l <;> rfl

end

/-! ## Calls -/

/-- Once both operands are reduced, what is left is one rule. -/
theorem rewrite_bin {depth : Nat} {op : Op} {l r a b : Expr} (hl : rewrite depth l = some (.ok a))
    (hr : rewrite depth r = some (.ok b)) :
    rewrite (depth + 1) (bin op l r) = rewriteTop (rewrite depth) op a b := by
  rw [rewrite, hl, hr]
  rfl

/-- What is reduced stays as it is. -/
theorem rewrite_reduced {e : Expr} (he : e.Reduced) {depth : Nat} (hdepth : e.height < depth) :
    rewrite depth e = some (.ok e) := by
  induction he generalizing depth with
  | const =>
    obtain ⟨d, rfl⟩ := Nat.exists_eq_add_one.2 hdepth
    rfl
  | mono =>
    obtain ⟨d, rfl⟩ := Nat.exists_eq_add_one.2 hdepth
    rfl
  | bin _ _ hn ihl ihr =>
    rw [height] at hdepth
    obtain ⟨d, rfl⟩ := Nat.exists_eq_add_one.2 (Nat.zero_lt_of_lt hdepth)
    rw [rewrite_bin (ihl (by omega)) (ihr (by omega)), rewriteTop_of_not_redex hn]

/-- A constant in front of a reduced operand takes one call more than distributing it. -/
theorem rewrite_factor {depth : Nat} {k : Rat} {e : Expr} (he : e.Reduced)
    (hdepth : e.height < depth)
    (hk : rewrite depth (e.distribute k) = some (.ok (e.scale k))) :
    rewrite (depth + 1) (bin .mul (const k) e) = some (.ok (e.scale k)) := by
  have hconst : rewrite depth (const k) = some (.ok (const k)) :=
    rewrite_reduced .const (Nat.zero_lt_of_lt hdepth)
  rw [rewrite_bin hconst (rewrite_reduced he hdepth)]
  cases e with
  | const q => rfl
  | mono m => rfl
  | bin o s t => exact hk

theorem redex_scale_left_iff {k : Rat} {op : Op} {l r : Expr} :
    Redex op (l.scale k) r ↔ Redex op l r := by
  rw [← redex_skeleton_iff, skeleton_scale, redex_skeleton_iff]

theorem redex_scale_iff {k : Rat} {op : Op} {l r : Expr} :
    Redex op (l.scale k) (r.scale k) ↔ Redex op l r := by
  rw [← redex_skeleton_iff, skeleton_scale, skeleton_scale, redex_skeleton_iff]

/-- **A factor that is distributed over a reduced expression is multiplied out**, also if it is
    zero: no operation but those that carry the factor is carried out. -/
theorem rewrite_distribute (k : Rat) {e : Expr} (he : e.Reduced) {depth : Nat}
    (hdepth : 2 * e.height + 1 < depth) :
    rewrite depth (e.distribute k) = some (.ok (e.scale k)) := by
  induction he generalizing depth with
  | const =>
    obtain ⟨d, rfl⟩ := Nat.exists_eq_add_of_le' hdepth
    rfl
  | mono =>
    obtain ⟨d, rfl⟩ := Nat.exists_eq_add_of_le' hdepth
    rfl
  | @bin op l r hl hr hn ihl ihr =>
    rw [height] at hdepth
    obtain ⟨d, rfl⟩ : ∃ d, depth = d + 2 := ⟨depth - 2, by omega⟩
    -- both operands of a sum take the factor themselves
    have hsum : rewrite (d + 2) (bin op (l.distribute k) (r.distribute k)) =
        some (.ok (bin op (l.scale k) (r.scale k))) := by
      have hn' : ¬ Redex op (l.scale k) (r.scale k) := fun h => hn (redex_scale_iff.1 h)
      rw [rewrite_bin (ihl (by omega)) (ihr (by omega)), rewriteTop_of_not_redex hn']
    -- of a product or quotient only the left one does, with the constant still in front of it
    have hproduct : rewrite (d + 2) (bin op (bin .mul (const k) l) r) =
        some (.ok (bin op (l.scale k) r)) := by
      have hn' : ¬ Redex op (l.scale k) r := fun h => hn (redex_scale_left_iff.1 h)
      have hk : rewrite d (l.distribute k) = some (.ok (l.scale k)) := ihl (by omega)
      rw [rewrite_bin (rewrite_factor hl (by omega) hk) (rewrite_reduced hr (by omega)),
        rewriteTop_of_not_redex hn']
    cases op with
    | add => exact hsum
    | sub => exact hsum
    | mul => exact hproduct
    | div => exact hproduct

/-- **The calls end on every expression**, with its reduced form or with the error. -/
theorem rewrite_eq_reduce {e : Expr} {depth : Nat} (hdepth : 2 * e.height < depth) :
    rewrite depth e = some e.reduce := by
  induction e generalizing depth with
  | const q =>
    obtain ⟨d, rfl⟩ := Nat.exists_eq_add_one.2 hdepth
    rfl
  | mono m =>
    obtain ⟨d, rfl⟩ := Nat.exists_eq_add_one.2 hdepth
    rfl
  | bin op l r ihl ihr =>
    rw [height] at hdepth
    obtain ⟨d, rfl⟩ := Nat.exists_eq_add_one.2 (Nat.zero_lt_of_lt hdepth)
    have hl : rewrite d l = some l.reduce := ihl (by omega)
    have hr : rewrite d r = some r.reduce := ihr (by omega)
    rw [reduce]
    cases ha : l.reduce with
    | error err => rw [rewrite, hl, ha]; rfl
    | ok a =>
      rw [ha] at hl
      cases hb : r.reduce with
      | error err => rw [rewrite, hl, hr, hb]; rfl
      | ok b =>
        rw [hb] at hr
        rw [rewrite_bin hl hr]
        refine rewriteTop_eq_combine fun k f hf => ?_
        -- what a factor is distributed over is reduced, and no higher than what it came from
        have hla := height_le_of_reduce ha
        have hrb := height_le_of_reduce hb
        rcases hf with rfl | rfl
        · exact rewrite_distribute k (reduced_of_reduce ha) (by omega)
        · exact rewrite_distribute k (reduced_of_reduce hb) (by omega)

/-- **Reducing again what a factor was distributed over ends without an error**, and gives an
    expression of the same skeleton with the multiple of the value.  Hence the calls nest at most
    twice as deep as an expression is high, plus one, whatever the expression is. -/
theorem rewriting_ends :
    (∀ (k : Rat) (e : Expr), e.Reduced → ∃ f,
      (∀ depth, 2 * e.height + 1 < depth → rewrite depth (e.distribute k) = some (.ok f)) ∧
      (e.distribute k).reduce = .ok f ∧ f.skeleton = e.skeleton ∧
      ∀ env, f.value? env = (e.value? env).map (k * ·)) ∧
    ∀ (e : Expr) (depth : Nat), 2 * e.height < depth → rewrite depth e = some e.reduce := by
  refine ⟨fun k e he => ?_, fun e depth hdepth => rewrite_eq_reduce hdepth⟩
  have hf : ∀ depth, 2 * e.height + 1 < depth →
      rewrite depth (e.distribute k) = some (.ok (e.scale k)) :=
    fun depth hdepth => rewrite_distribute k he hdepth
  have hreduce : (e.distribute k).reduce = .ok (e.scale k) := by
    have hends := rewrite_eq_reduce (Nat.lt_add_left (2 * e.height + 2)
      (Nat.lt_succ_self (2 * (e.distribute k).height)))
    rw [hf _ (by omega)] at hends
    exact (Option.some.inj hends).symm
  exact ⟨e.scale k, hf, hreduce, skeleton_scale k e, fun env => value?_scale k e⟩

/-- `2x - 3 / x` -/
def poleAtZero : Expr :=
  .bin .sub (.mono ⟨'x', 2⟩) (.bin .div (.const 3) (.unknown 'x'))

/-- The factor zero keeps the quotient, and the place where it has no value. -/
theorem rewriting_ends_poleAtZero : poleAtZero.Reduced ∧ 2 * poleAtZero.height + 1 < 6 ∧
    ∃ f, rewrite 6 (poleAtZero.distribute 0) = some (.ok f) ∧ f.skeleton = poleAtZero.skeleton ∧
      f.value? (fun _ => 0) = none ∧ f.value? (fun _ => 1) = some 0 := by
  have hr : poleAtZero.Reduced :=
    .bin .mono (.bin .const .mono (by rintro ⟨⟩)) (by rintro ⟨⟩)
  have hdepth : 2 * poleAtZero.height + 1 < 6 := by decide
  obtain ⟨f, hf, -, hskel, hv⟩ := rewriting_ends.1 0 poleAtZero hr
  have hzero : poleAtZero.value? (fun _ => 0) = none := by decide +kernel
  have hone : poleAtZero.value? (fun _ => 1) = some (-1) := by decide +kernel
  refine ⟨hr, hdepth, f, hf 6 hdepth, hskel, ?_, ?_⟩
  · rw [hv, hzero]
    rfl
  · rw [hv, hone]
    exact congrArg some (zero_mul _)

end OneUnknown.Expr
