/-
  The tree that a written expression stands for.

  A sum written behind a `+` has no parentheses, nor has a product behind a `*`, and a fraction is
  written as a quotient.  So the written form stands for another tree: its operations are grouped
  from the left.

  * `Expr.readAs tier front`: that tree, in a chain of tier `tier`, where `front` puts what comes
    before it in the chain in front of its first operand.
  * `agree_readAs`: it differs in the grouping only.
  * `Expr.Canonical`: integers, and nothing to regroup.  Such an expression stands for itself
    (`Canonical.readAs_eq`).
-/
import OneUnknown.Grammar.Descent
import OneUnknown.Proofs.Agreement
import OneUnknown.Proofs.Rendering.Tokens

namespace OneUnknown

open Grammar

/-! ## Tiers -/

theorem Grammar.Tier.ne_sum_iff {tier : Tier} : tier ≠ .sum ↔ tier = .product := by
  cases tier <;> decide

theorem Grammar.Tier.ne_product_iff {tier : Tier} : tier ≠ .product ↔ tier = .sum := by
  cases tier <;> decide

/-- The chains that an operation stands in. -/
def Op.tier : Op → Tier
  | add | sub => .sum
  | mul | div => .product

theorem Op.precedence_eq_iff {op op' : Op} :
    op'.precedence = op.precedence ↔ op'.tier = op.tier := by
  cases op <;> cases op' <;> decide

theorem Op.op?_tier (op : Op) : op.tier.op? op.token.kind = some op := by
  cases op <;> rfl

namespace Expr

/-- The chains that an expression is written as, if it is written as one. -/
def tier? : Expr → Option Tier
  | const q => if q.den ≠ 1 ∧ 0 ≤ q then some .product else none
  | mono _ => none
  | bin op _ _ => some op.tier

theorem writtenPrecedence?_eq (e : Expr) :
    e.writtenPrecedence? = e.tier?.map fun | .sum => 1 | .product => 2 := by
  cases e with
  | const q => simp only [writtenPrecedence?, tier?]; split <;> rfl
  | mono m => rfl
  | bin op l r => cases op <;> rfl

/-- A sum is enclosed in a product, whatever the operations. -/
def enclosedIn (tier : Tier) (e : Expr) : Bool :=
  decide (tier = .product ∧ e.tier? = some .sum)

theorem needsParens_left (op : Op) (e : Expr) : needsParens op .left e = e.enclosedIn op.tier := by
  rw [needsParens, enclosedIn, writtenPrecedence?_eq]
  cases e.tier? with
  | none => cases op <;> rfl
  | some tier => cases op <;> cases tier <;> rfl

theorem needsParens_right_of_commutative {op : Op} (h : op.isCommutative = true) (e : Expr) :
    needsParens op .right e = e.enclosedIn op.tier := by
  rw [needsParens, enclosedIn, writtenPrecedence?_eq]
  cases e.tier? with
  | none => cases op <;> rfl
  | some tier => cases op <;> cases tier <;> first | rfl | cases h

/-- Behind a difference or a quotient, whatever binds no tighter is enclosed. -/
theorem needsParens_right_iff {op : Op} (h : op.isCommutative = false) {e : Expr} :
    needsParens op .right e = true ↔ e.tier? = some .sum ∨ e.tier? = some op.tier := by
  rw [needsParens, writtenPrecedence?_eq]
  cases e.tier? with
  | none => simp
  | some tier => cases op <;> cases tier <;> cases h <;> decide

/-! ## Regrouping -/

/-- The tree that an expression is read as, behind what `front` puts in front of it. -/
def readAs (tier : Tier) (front : Expr → Expr) : Expr → Expr
  | const q =>
    if q.den = 1 then front (const q)
    else if tier = .product ∧ 0 ≤ q then bin .div (front (const q.num)) (const q.den)
    else front (bin .div (const q.num) (const q.den))
  | mono m => front (mono m)
  | bin op l r =>
    let grouped := fun front : Expr → Expr =>
      if op.isCommutative then r.readAs op.tier (bin op (l.readAs op.tier front))
      else bin op (l.readAs op.tier front) (r.readAs op.tier id)
    if op.tier = tier then grouped front else front (grouped id)

variable {tier : Tier} {front : Expr → Expr} {op : Op} {l r : Expr}

theorem readAs_commutative (h : op.isCommutative = true) (ht : op.tier = tier) :
    (bin op l r).readAs tier front = r.readAs tier (bin op (l.readAs tier front)) := by
  subst ht
  simp only [readAs, h, if_true]

theorem readAs_not_commutative (h : op.isCommutative = false) (ht : op.tier = tier) :
    (bin op l r).readAs tier front = bin op (l.readAs tier front) (r.readAs tier id) := by
  subst ht
  simp only [readAs, h, if_true, Bool.false_eq_true, if_false]

/-- What is no chain of the tier is read apart from what comes before it. -/
theorem readAs_of_tier?_ne {e : Expr} (h : e.tier? ≠ some tier) :
    e.readAs tier front = front (e.readAs tier id) := by
  cases e with
  | const q =>
    unfold readAs
    split_ifs with hq hp
    · rfl
    · exact absurd (by rw [tier?, if_pos ⟨hq, hp.2⟩, hp.1]) h
    · rfl
  | mono m => rfl
  | bin op l r =>
    have hop : op.tier ≠ tier := fun ht => h (congrArg some ht)
    simp only [readAs, if_neg hop, id]

/-- Alone an expression is read in the same way in all chains. -/
theorem readAs_id (e : Expr) (tier tier' : Tier) : e.readAs tier id = e.readAs tier' id := by
  cases e with
  | const q => simp only [readAs, id, ite_self]
  | mono m => rfl
  | bin op l r => simp only [readAs, id, ite_self]

/-! ## Agreement -/

/-- Nothing stands in front, or the first operand of a sum or a product. -/
inductive IsFront (tier : Tier) : (Expr → Expr) → Prop
  | none : IsFront tier id
  | some {op : Op} (a : Expr) : op.tier = tier → op.isCommutative = true → IsFront tier (bin op a)

theorem IsFront.agree {e f : Expr} (h : IsFront tier front) (he : Agree e f) :
    Agree (front e) (front f) := by
  cases h with
  | none => exact he
  | some a _ _ => exact (Agree.refl a).bin he

/-- An operation of the chain may be done behind what stands in front. -/
theorem IsFront.agree_bin (h : IsFront tier front) (ht : op.tier = tier) :
    Agree (front (bin op l r)) (bin op (front l) r) := by
  cases h with
  | none => exact .refl _
  | some a ha hc => exact agree_regroup hc (Op.precedence_eq_iff.2 (ht.trans ha.symm)) a l r

/-- **A written expression is read as one that differs in its grouping only.** -/
theorem agree_readAs {e : Expr} (h : IsFront tier front) :
    Agree (front e) (e.readAs tier front) := by
  induction e generalizing tier front with
  | const q =>
    unfold readAs
    split_ifs with hq hp
    · exact .refl _
    · exact (h.agree (agree_fraction q)).trans (h.agree_bin hp.1.symm)
    · exact h.agree (agree_fraction q)
  | mono m => exact .refl _
  | bin op l r ihl ihr =>
    -- in a chain of its own tier, whatever stands in front
    have self : ∀ {front}, IsFront op.tier front →
        Agree (front (bin op l r)) ((bin op l r).readAs op.tier front) := by
      intro front h
      have hleft := (h.agree_bin rfl).trans ((ihl h).bin (.refl r))
      cases hc : op.isCommutative with
      | true =>
        rw [readAs_commutative hc rfl]
        exact hleft.trans (ihr (.some _ rfl hc))
      | false =>
        rw [readAs_not_commutative hc rfl]
        exact hleft.trans ((Agree.refl _).bin (ihr .none))
    by_cases ht : op.tier = tier
    · subst ht
      exact self h
    · have hne : (bin op l r).tier? ≠ some tier := fun he => ht (Option.some.inj he)
      rw [readAs_of_tier?_ne hne, readAs_id _ tier op.tier]
      exact h.agree (self .none)

/-! ## Canonical expressions -/

/-- Integers and monomials that can be written, under operations that are grouped from the left. -/
inductive Canonical : Expr → Prop
  | const {q} : q.den = 1 → Canonical (const q)
  | mono {m} : m.coef.den = 1 → Kind.ofChar? m.name = some .letter → Canonical (mono m)
  | bin {op : Op} {l r : Expr} : Canonical l → Canonical r →
      (op.isCommutative = true → ∀ op' a b, r = bin op' a b → op'.precedence ≠ op.precedence) →
      Canonical (bin op l r)

theorem Canonical.writable {e : Expr} (h : e.Canonical) : e.Writable := by
  induction h with
  | const => exact writable_const _
  | mono hc hn => exact writable_mono_iff.2 ⟨hc, hn⟩
  | bin _ _ _ ihl ihr => exact writable_bin_iff.2 ⟨ihl, ihr⟩

/-- What is canonical is a chain of the tier of its operation only. -/
theorem Canonical.exists_of_tier?_eq {e : Expr} (h : e.Canonical) (ht : e.tier? = some tier) :
    ∃ op l r, e = Expr.bin op l r ∧ op.tier = tier := by
  cases h with
  | const hq => simp [tier?, hq] at ht
  | mono => cases ht
  | @bin op l r => exact ⟨op, l, r, rfl, Option.some.inj ht⟩

/-- **A canonical expression is read as itself.** -/
theorem Canonical.readAs_eq {e : Expr} (h : e.Canonical) (tier : Tier) : e.readAs tier id = e := by
  induction h generalizing tier with
  | const hq => rw [readAs, if_pos hq, id]
  | mono => rfl
  | @bin op l r _ hr hop ihl ihr =>
    rw [readAs_id _ tier op.tier]
    cases hc : op.isCommutative with
    | false => rw [readAs_not_commutative hc rfl, ihl, ihr]
    | true =>
      have hne : r.tier? ≠ some op.tier := by
        intro ht
        obtain ⟨op', a, b, hrb, htier⟩ := hr.exists_of_tier?_eq ht
        exact hop hc op' a b hrb (Op.precedence_eq_iff.2 htier)
      rw [readAs_commutative hc rfl, readAs_of_tier?_ne hne, ihl, ihr]

end Expr

end OneUnknown
