/-
  Flattening an expression into signed terms, and moving the terms of an equation.

  * `firstProduct?` is the product or quotient that stops the flattening: `terms_eq_error_iff`,
    `exists_terms_iff`.
  * `value?_of_terms`: the terms under a sign add up to the value under that sign.
    `names_of_terms`: the unknowns are kept, in their order.
  * `difference?` is the left side minus the right side: migration keeps it
    (`difference?_of_migrate`) and the unknowns (`occurrences_of_migrate`).
  * `reduce_of_migrate`: a migrated equation reduces to a monomial that faces a constant; hence
    what is reduced and migrates to itself has that form already (`isolated?_of_migrate_self`).
-/
import Mathlib.Algebra.BigOperators.Group.List.Basic
import Mathlib.Tactic.Ring
import OneUnknown.Resolution
import OneUnknown.Proofs.Evaluation

namespace OneUnknown

/-! ## Terms and signs -/

/-- The factor of a sign. -/
def Sign.factor : Sign → Rat
  | plus => 1
  | minus => -1

theorem Sign.factor_mul_self (s : Sign) : s.factor * s.factor = 1 := by
  cases s <;> simp [factor]

theorem Sign.factor_flip (s : Sign) : s.flip.factor = -s.factor := by
  cases s with
  | plus => rfl
  | minus => exact (neg_neg 1).symm

namespace Term

/-- The value of a term. -/
def value (env : Char → Rat) : Term → Rat
  | const q => q
  | mono m => m.coef * env m.name

theorem value_signed (env : Char → Rat) (s : Sign) (t : Term) :
    (signed s t).value env = s.factor * t.value env := by
  cases s with
  | plus => exact (one_mul _).symm
  | minus =>
    cases t with
    | const q => exact neg_eq_neg_one_mul q
    | mono m => exact (neg_mul ..).trans (neg_eq_neg_one_mul _)

/-- A list of terms, summed up as its monomials and its constants. -/
theorem sum_value (env : Char → Rat) (ts : List Term) :
    (ts.map (value env)).sum =
      ((ts.filterMap mono?).map fun m => m.coef * env m.name).sum + (ts.filterMap const?).sum := by
  induction ts with
  | nil => simp
  | cons t ts ih =>
    cases t with
    | const q =>
      simp only [List.map_cons, List.sum_cons, value, List.filterMap_cons, mono?, const?, ih]
      ring
    | mono m =>
      simp only [List.map_cons, List.sum_cons, value, List.filterMap_cons, mono?, const?, ih]
      ring

end Term

namespace Expr

/-! ## Flattening -/

/-- The leftmost product or quotient that is reached from the root through sums and differences
    only. -/
def firstProduct? : Expr → Option Expr
  | const _ => none
  | mono _ => none
  | bin .add l r => l.firstProduct?.or r.firstProduct?
  | bin .sub l r => l.firstProduct?.or r.firstProduct?
  | bin .mul l r => some (bin .mul l r)
  | bin .div l r => some (bin .div l r)

theorem terms_add_eq_ok_iff {s : Sign} {l r : Expr} {ts : List Term} :
    (bin .add l r).terms s = .ok ts ↔
      ∃ us, l.terms s = .ok us ∧ ∃ vs, r.terms s = .ok vs ∧ us ++ vs = ts := by
  rw [terms]
  simp only [bind_eq_ok_iff, pure, Except.pure, Except.ok.injEq]

theorem terms_sub_eq_ok_iff {s : Sign} {l r : Expr} {ts : List Term} :
    (bin .sub l r).terms s = .ok ts ↔
      ∃ us, l.terms s = .ok us ∧ ∃ vs, r.terms s.flip = .ok vs ∧ us ++ vs = ts := by
  rw [terms]
  simp only [bind_eq_ok_iff, pure, Except.pure, Except.ok.injEq]

/-- Flattening fails at the leftmost product or quotient, and only there. -/
theorem exists_terms_or {e : Expr} (s : Sign) :
    (e.firstProduct? = none ∧ ∃ ts, e.terms s = .ok ts) ∨
      ∃ p, e.firstProduct? = some p ∧ e.terms s = .error (.nonLinearTerm p) := by
  induction e generalizing s with
  | const q => exact .inl ⟨rfl, _, rfl⟩
  | mono m => exact .inl ⟨rfl, _, rfl⟩
  | bin op l r ihl ihr =>
    cases op with
    | add =>
      rcases ihl s with ⟨hl, us, hus⟩ | ⟨p, hl, hp⟩
      · rcases ihr s with ⟨hr, vs, hvs⟩ | ⟨p, hr, hp⟩
        · exact .inl ⟨by simp [firstProduct?, hl, hr], _, by rw [terms, hus, hvs]; rfl⟩
        · exact .inr ⟨p, by simp [firstProduct?, hl, hr], by rw [terms, hus, hp]; rfl⟩
      · exact .inr ⟨p, by simp [firstProduct?, hl], by rw [terms, hp]; rfl⟩
    | sub =>
      rcases ihl s with ⟨hl, us, hus⟩ | ⟨p, hl, hp⟩
      · rcases ihr s.flip with ⟨hr, vs, hvs⟩ | ⟨p, hr, hp⟩
        · exact .inl ⟨by simp [firstProduct?, hl, hr], _, by rw [terms, hus, hvs]; rfl⟩
        · exact .inr ⟨p, by simp [firstProduct?, hl, hr], by rw [terms, hus, hp]; rfl⟩
      · exact .inr ⟨p, by simp [firstProduct?, hl], by rw [terms, hp]; rfl⟩
    | mul => exact .inr ⟨_, rfl, rfl⟩
    | div => exact .inr ⟨_, rfl, rfl⟩

theorem terms_eq_error_iff {s : Sign} {e : Expr} {err : Error} :
    e.terms s = .error err ↔ ∃ p, e.firstProduct? = some p ∧ err = .nonLinearTerm p := by
  rcases e.exists_terms_or s with ⟨hn, ts, hts⟩ | ⟨p, hp, he⟩
  · simp [hn, hts]
  · simp [hp, he, eq_comm]

theorem exists_terms_iff {s : Sign} {e : Expr} :
    (∃ ts, e.terms s = .ok ts) ↔ e.firstProduct? = none := by
  rcases e.exists_terms_or s with ⟨hn, ts, hts⟩ | ⟨p, hp, he⟩
  · simp [hn, hts]
  · simp [hp, he]

/-- **The terms under a sign add up to the value under that sign.** -/
theorem value?_of_terms {s : Sign} {e : Expr} {ts : List Term} (env : Char → Rat)
    (h : e.terms s = .ok ts) : e.value? env = some (s.factor * (ts.map (Term.value env)).sum) := by
  have leaf : ∀ (s : Sign) (t : Term), some (t.value env) =
      some (s.factor * ([Term.signed s t].map (Term.value env)).sum) := fun s t => by
    rw [List.map_singleton, List.sum_singleton, Term.value_signed, ← mul_assoc,
      s.factor_mul_self, one_mul]
  induction e generalizing s ts with
  | const q => cases h; exact leaf s (.const q)
  | mono m => cases h; exact leaf s (.mono m)
  | bin op l r ihl ihr =>
    cases op with
    | add =>
      obtain ⟨us, hus, vs, hvs, rfl⟩ := terms_add_eq_ok_iff.1 h
      rw [value?_bin, ihl hus, ihr hvs, List.map_append, List.sum_append, mul_add]
      rfl
    | sub =>
      obtain ⟨us, hus, vs, hvs, rfl⟩ := terms_sub_eq_ok_iff.1 h
      rw [value?_bin, ihl hus, ihr hvs, List.map_append, List.sum_append, mul_add,
        Sign.factor_flip, neg_mul]
      exact congrArg some (sub_neg_eq_add ..)
    | mul => cases h
    | div => cases h

/-- The unknowns of the terms are those of the expression, in their order. -/
theorem names_of_terms {s : Sign} {e : Expr} {ts : List Term} (h : e.terms s = .ok ts) :
    (ts.filterMap Term.mono?).map (·.name) = e.occurrences := by
  induction e generalizing s ts with
  | const q => cases h; cases s <;> rfl
  | mono m => cases h; cases s <;> rfl
  | bin op l r ihl ihr =>
    cases op with
    | add =>
      obtain ⟨us, hus, vs, hvs, rfl⟩ := terms_add_eq_ok_iff.1 h
      rw [List.filterMap_append, List.map_append, ihl hus, ihr hvs, occurrences]
    | sub =>
      obtain ⟨us, hus, vs, hvs, rfl⟩ := terms_sub_eq_ok_iff.1 h
      rw [List.filterMap_append, List.map_append, ihl hus, ihr hvs, occurrences]
    | mul => cases h
    | div => cases h

/-! ## Sums -/

theorem value?_sum {α : Type} (env : Char → Rat) {leaf : α → Expr} {v : α → Rat}
    (hv : ∀ x, (leaf x).value? env = some (v x)) (first : α) (xs : List α) :
    (sum (leaf first) (xs.map leaf)).value? env = some ((first :: xs).map v).sum := by
  have h : ∀ (e : Expr) (a : Rat), e.value? env = some a →
      (sum e (xs.map leaf)).value? env = some (a + (xs.map v).sum) := by
    unfold sum
    induction xs with
    | nil => intro e a ha; simpa using ha
    | cons x xs ih =>
      intro e a ha
      have hx : (bin .add e (leaf x)).value? env = some (a + v x) := by
        rw [value?_bin, ha, hv]; rfl
      rw [List.map_cons, List.foldl_cons, ih _ _ hx, List.map_cons, List.sum_cons, add_assoc]
  rw [List.map_cons, List.sum_cons]
  exact h _ _ (hv first)

theorem occurrences_sum (first : Expr) (others : List Expr) :
    (sum first others).occurrences = first.occurrences ++ others.flatMap occurrences := by
  unfold sum
  induction others generalizing first with
  | nil => simp
  | cons e es ih => simp [ih, occurrences]

/-- A sum of monomials reduces to one monomial. -/
theorem reduce_sum_mono (m : Monomial) (ms : List Monomial) :
    ∃ c, (sum (mono m) (ms.map mono)).reduce = .ok (mono ⟨m.name, c⟩) := by
  have h : ∀ (e : Expr) (c : Rat), e.reduce = .ok (mono ⟨m.name, c⟩) →
      ∃ c, (sum e (ms.map mono)).reduce = .ok (mono ⟨m.name, c⟩) := by
    unfold sum
    induction ms with
    | nil => intro e c he; exact ⟨c, he⟩
    | cons n ms ih =>
      intro e c he
      exact ih (bin .add e (mono n)) (c + n.coef) (reduce_bin_eq_ok_iff.2 ⟨_, he, _, rfl, rfl⟩)
  exact h (mono m) m.coef rfl

/-- A sum of constants reduces to one constant. -/
theorem reduce_sum_const (q : Rat) (qs : List Rat) :
    ∃ c, (sum (const q) (qs.map const)).reduce = .ok (const c) := by
  have h : ∀ (e : Expr) (c : Rat), e.reduce = .ok (const c) →
      ∃ c, (sum e (qs.map const)).reduce = .ok (const c) := by
    unfold sum
    induction qs with
    | nil => intro e c he; exact ⟨c, he⟩
    | cons p qs ih =>
      intro e c he
      exact ih (bin .add e (const p)) (c + p) (reduce_bin_eq_ok_iff.2 ⟨_, he, _, rfl, rfl⟩)
  exact h (const q) q rfl

end Expr

namespace Equation

/-! ## Migration -/

/-- The unknowns of an equation from left to right, once for each time they are written. -/
def occurrences (eq : Equation) : List Char :=
  eq.left.occurrences ++ eq.right.occurrences

/-- The left side minus the right side, where both have a value. -/
def difference? (env : Char → Rat) (eq : Equation) : Option Rat := do
  return (← eq.left.value? env) - (← eq.right.value? env)

theorem difference?_eq_some_iff {env : Char → Rat} {eq : Equation} {d : Rat} :
    eq.difference? env = some d ↔
      ∃ a b, eq.left.value? env = some a ∧ eq.right.value? env = some b ∧ a - b = d := by
  unfold difference?
  cases eq.left.value? env <;> cases eq.right.value? env <;> simp

theorem migrate_eq_ok_iff {eq moved : Equation} : eq.migrate = .ok moved ↔
    ∃ ts, eq.left.terms .plus = .ok ts ∧ ∃ us, eq.right.terms .plus = .ok us ∧
      gather ts us = .ok moved := by
  rw [migrate]
  simp only [bind_eq_ok_iff]

theorem gather_eq_ok_iff {left right : List Term} {moved : Equation} :
    gather left right = .ok moved ↔ ∃ m ms, movedMonomials left right = m :: ms ∧
      ⟨Expr.sum (.mono m) (ms.map .mono), constantSide (movedConstants left right)⟩ = moved := by
  unfold gather
  split <;> simp_all

theorem value?_constantSide (env : Char → Rat) (qs : List Rat) :
    (constantSide qs).value? env = some qs.sum := by
  cases qs with
  | nil => rfl
  | cons q qs =>
    have h := Expr.value?_sum env (fun q => (rfl : (Expr.const q).value? env = some (id q))) q qs
    rwa [List.map_id'] at h

/-- What gathering keeps: the terms on the left minus the terms on the right. -/
theorem difference?_of_gather {left right : List Term} {moved : Equation} (env : Char → Rat)
    (h : gather left right = .ok moved) : moved.difference? env =
      some ((left.map (Term.value env)).sum - (right.map (Term.value env)).sum) := by
  obtain ⟨m, ms, hm, rfl⟩ := gather_eq_ok_iff.1 h
  have hl := Expr.value?_sum env
    (fun n => (rfl : (Expr.mono n).value? env = some (n.coef * env n.name))) m ms
  have hneg : ∀ ms : List Monomial, (ms.map (- ·)).map (fun n => n.coef * env n.name) =
      (ms.map fun n => n.coef * env n.name).map (- ·) := by
    intro ms
    rw [List.map_map, List.map_map]
    exact List.map_congr_left fun n _ => neg_mul ..
  rw [← hm, movedMonomials, List.map_append, List.sum_append, hneg, ← List.sum_neg] at hl
  refine difference?_eq_some_iff.2 ⟨_, _, hl, value?_constantSide env _, ?_⟩
  rw [movedConstants, List.sum_append, ← List.sum_neg, Term.sum_value, Term.sum_value]
  ring

/-- **Migration keeps the left side minus the right side**, under every assignment. -/
theorem difference?_of_migrate {eq moved : Equation} (env : Char → Rat)
    (h : eq.migrate = .ok moved) : moved.difference? env = eq.difference? env := by
  obtain ⟨ts, hts, us, hus, hg⟩ := migrate_eq_ok_iff.1 h
  rw [difference?_of_gather env hg]
  refine (difference?_eq_some_iff.2 ⟨_, _, Expr.value?_of_terms env hts,
    Expr.value?_of_terms env hus, ?_⟩).symm
  rw [Sign.factor, one_mul, one_mul]

theorem names_of_movedMonomials {left right : Expr} {ts us : List Term}
    (hl : left.terms .plus = .ok ts) (hr : right.terms .plus = .ok us) :
    (movedMonomials ts us).map (·.name) = left.occurrences ++ right.occurrences := by
  rw [movedMonomials, List.map_append, List.map_map, ← Expr.names_of_terms hl,
    ← Expr.names_of_terms hr]
  rfl

/-- Migration keeps the unknowns, in their order; they all go to the left. -/
theorem occurrences_of_migrate {eq moved : Equation} (h : eq.migrate = .ok moved) :
    moved.left.occurrences = eq.occurrences ∧ moved.right.occurrences = [] := by
  obtain ⟨ts, hts, us, hus, hg⟩ := migrate_eq_ok_iff.1 h
  obtain ⟨m, ms, hm, rfl⟩ := gather_eq_ok_iff.1 hg
  constructor
  · rw [occurrences, ← names_of_movedMonomials hts hus, hm, Expr.occurrences_sum, List.flatMap_map,
      List.map_eq_flatMap]
    rfl
  · unfold constantSide
    split
    · rfl
    · rw [Expr.occurrences_sum, List.flatMap_map]
      simp [Expr.occurrences]

/-- An equation without a product or quotient in the way migrates if there is an unknown. -/
theorem exists_migrate {eq : Equation} (hl : eq.left.firstProduct? = none)
    (hr : eq.right.firstProduct? = none) (ho : eq.occurrences ≠ []) :
    ∃ moved, eq.migrate = .ok moved := by
  obtain ⟨ts, hts⟩ := (Expr.exists_terms_iff (s := .plus)).2 hl
  obtain ⟨us, hus⟩ := (Expr.exists_terms_iff (s := .plus)).2 hr
  rw [occurrences, ← names_of_movedMonomials hts hus, Ne, List.map_eq_nil_iff] at ho
  obtain ⟨m, ms, hm⟩ := List.exists_cons_of_ne_nil ho
  exact ⟨_, migrate_eq_ok_iff.2 ⟨ts, hts, us, hus, gather_eq_ok_iff.2 ⟨m, ms, hm, rfl⟩⟩⟩

/-- The leftmost product or quotient in the way, first of the left side, stops a migration. -/
theorem migrate_eq_error {eq : Equation} {p : Expr}
    (h : eq.left.firstProduct?.or eq.right.firstProduct? = some p) :
    eq.migrate = .error (.nonLinearTerm p) := by
  rw [migrate, bind_eq_error_iff]
  rcases Option.or_eq_some_iff.1 h with hl | ⟨hl, hr⟩
  · exact .inl (Expr.terms_eq_error_iff.2 ⟨p, hl, rfl⟩)
  · obtain ⟨ts, hts⟩ := (Expr.exists_terms_iff (s := .plus)).2 hl
    exact .inr ⟨ts, hts, bind_eq_error_iff.2 (.inl (Expr.terms_eq_error_iff.2 ⟨p, hr, rfl⟩))⟩

/-- **A migrated equation reduces to a monomial that faces a constant.** -/
theorem reduce_of_migrate {eq moved : Equation} (h : eq.migrate = .ok moved) :
    ∃ m q, moved.reduce = .ok ⟨.mono m, .const q⟩ := by
  obtain ⟨ts, -, us, -, hg⟩ := migrate_eq_ok_iff.1 h
  obtain ⟨m, ms, -, rfl⟩ := gather_eq_ok_iff.1 hg
  obtain ⟨c, hc⟩ := Expr.reduce_sum_mono m ms
  have hr : ∃ q, (constantSide (movedConstants ts us)).reduce = .ok (.const q) := by
    unfold constantSide
    split
    · exact ⟨0, rfl⟩
    · exact Expr.reduce_sum_const _ _
  obtain ⟨q, hq⟩ := hr
  exact ⟨⟨m.name, c⟩, q, by rw [reduce, hc, hq]; rfl⟩

/-- An equation of reduced sides that migrates to itself is a monomial that faces a constant. -/
theorem isolated?_of_migrate_self {eq : Equation} (hl : eq.left.Reduced) (hr : eq.right.Reduced)
    (h : eq.migrate = .ok eq) : ∃ m q, eq.isolated? = some (m, q) := by
  obtain ⟨m, q, hm⟩ := reduce_of_migrate h
  rw [reduce, Expr.reduce_of_reduced hl, Expr.reduce_of_reduced hr] at hm
  have he : eq = ⟨.mono m, .const q⟩ := Except.ok.inj hm
  exact ⟨m, q, he ▸ rfl⟩

end Equation

end OneUnknown
