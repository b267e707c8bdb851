/-
  Flattening and migration lose nothing.

  * `Reaches e x`: `x` stands in `e` under nothing but sums and differences.  `summands e` are the
    parts where these end, from left to right (`mem_summands_iff`): flattening succeeds iff they are
    all leaves, and otherwise names the first that is not.
  * `leaves e` are the constants and monomials of `e` from left to right, each with the number of
    differences that it is on the right side of.  The terms are these leaves, each negated so many
    times (`eq_leaves_of_terms`).
  * `flattening_keeps`: this, and what a migration keeps.
-/
import Mathlib.Logic.Function.Iterate
import OneUnknown.Proofs.Terms

namespace OneUnknown

/-! ## Signs -/

/-- The number of times that a sign negates. -/
def Sign.flips : Sign → Nat
  | plus => 0
  | minus => 1

namespace Term

instance : InvolutiveNeg Term where
  neg_neg
    | const q => congrArg const (neg_neg q)
    | mono m => congrArg (fun c => mono ⟨m.name, c⟩) (neg_neg m.coef)

/-- Two negations more or less make no difference. -/
theorem iterate_flip (s : Sign) (n : Nat) (t : Term) :
    (- ·)^[n + s.flip.flips] t = (- ·)^[n + 1 + s.flips] t := by
  cases s with
  | plus => rfl
  | minus =>
    show (- ·)^[n] t = (- ·)^[n] (- -t)
    rw [neg_neg]

end Term

namespace Expr

/-! ## Leaves -/

/-- The number of times that an operation negates its right operand. -/
def flipsRight : Op → Nat
  | .sub => 1
  | .add | .mul | .div => 0

/-- The leaves of an expression from left to right, each with the number of differences that it is
    on the right side of. -/
def leaves : Expr → List (Nat × Term)
  | const q => [(0, .const q)]
  | mono m => [(0, .mono m)]
  | bin op l r => l.leaves ++ r.leaves.map fun p => (p.1 + flipsRight op, p.2)

/-- The leaves under a sign. -/
def signedLeaves (s : Sign) (e : Expr) : List Term :=
  e.leaves.map fun p => (- ·)^[p.1 + s.flips] p.2

theorem signedLeaves_add (s : Sign) (l r : Expr) :
    signedLeaves s (bin .add l r) = signedLeaves s l ++ signedLeaves s r := by
  rw [signedLeaves, leaves, List.map_append, List.map_map]
  rfl

theorem signedLeaves_sub (s : Sign) (l r : Expr) :
    signedLeaves s (bin .sub l r) = signedLeaves s l ++ signedLeaves s.flip r := by
  rw [signedLeaves, leaves, List.map_append, List.map_map]
  refine congrArg (signedLeaves s l ++ ·) (List.map_congr_left fun p _ => ?_)
  exact (Term.iterate_flip s p.1 p.2).symm

/-- **The terms are the leaves**, negated once for every difference they are on the right side of,
    and once more under a minus. -/
theorem eq_leaves_of_terms {s : Sign} {e : Expr} {ts : List Term} (h : e.terms s = .ok ts) :
    ts = signedLeaves s e := by
  induction e generalizing s ts with
  | const q => cases h; cases s <;> rfl
  | mono m => cases h; cases s <;> rfl
  | bin op l r ihl ihr =>
    cases op with
    | add =>
      obtain ⟨us, hus, vs, hvs, rfl⟩ := terms_add_eq_ok_iff.1 h
      rw [signedLeaves_add, ihl hus, ihr hvs]
    | sub =>
      obtain ⟨us, hus, vs, hvs, rfl⟩ := terms_sub_eq_ok_iff.1 h
      rw [signedLeaves_sub, ihl hus, ihr hvs]
    | mul => cases h
    | div => cases h

/-! ## Summands -/

/-- The operation is a sum or a difference. -/
def IsAdditive (op : Op) : Prop :=
  op = .add ∨ op = .sub

instance : DecidablePred IsAdditive :=
  fun op => inferInstanceAs (Decidable (op = .add ∨ op = .sub))

/-- A part of an expression under nothing but sums and differences. -/
inductive Reaches : Expr → Expr → Prop
  | here {e} : Reaches e e
  | left {op l r x} : IsAdditive op → Reaches l x → Reaches (bin op l r) x
  | right {op l r x} : IsAdditive op → Reaches r x → Reaches (bin op l r) x

/-- The parts of an expression where its sums and differences end, from left to right. -/
def summands : Expr → List Expr
  | const q => [const q]
  | mono m => [mono m]
  | bin .add l r => l.summands ++ r.summands
  | bin .sub l r => l.summands ++ r.summands
  | bin .mul l r => [bin .mul l r]
  | bin .div l r => [bin .div l r]

/-- The expression is no leaf. -/
def isOperation : Expr → Bool
  | const _ | mono _ => false
  | bin _ _ _ => true

theorem reaches_bin_iff {op : Op} {l r x : Expr} : Reaches (bin op l r) x ↔
    x = bin op l r ∨ IsAdditive op ∧ (Reaches l x ∨ Reaches r x) := by
  constructor
  · intro h
    cases h with
    | here => exact .inl rfl
    | left hop h => exact .inr ⟨hop, .inl h⟩
    | right hop h => exact .inr ⟨hop, .inr h⟩
  · rintro (rfl | ⟨hop, h | h⟩)
    · exact .here
    · exact .left hop h
    · exact .right hop h

/-- The sums and differences of an expression end at it. -/
def IsEnd (e : Expr) : Prop :=
  ∀ op l r, e = bin op l r → ¬ IsAdditive op

/-- Nothing else is reached from where they end. -/
theorem mem_singleton_iff_of_isEnd {e x : Expr} (he : e.IsEnd) :
    x ∈ [e] ↔ Reaches e x ∧ x.IsEnd := by
  rw [List.mem_singleton]
  constructor
  · rintro rfl
    exact ⟨.here, he⟩
  · rintro ⟨h, -⟩
    cases h with
    | here => rfl
    | left hop _ => exact absurd hop (he _ _ _ rfl)
    | right hop _ => exact absurd hop (he _ _ _ rfl)

theorem mem_append_iff_of_isAdditive {op : Op} {l r x : Expr} (hop : IsAdditive op)
    (hl : x ∈ l.summands ↔ Reaches l x ∧ x.IsEnd) (hr : x ∈ r.summands ↔ Reaches r x ∧ x.IsEnd) :
    x ∈ l.summands ++ r.summands ↔ Reaches (bin op l r) x ∧ x.IsEnd := by
  rw [List.mem_append, hl, hr, reaches_bin_iff, ← or_and_right]
  refine and_congr_left fun hx => ⟨fun h => .inr ⟨hop, h⟩, ?_⟩
  rintro (rfl | ⟨-, h⟩)
  · exact absurd hop (hx _ _ _ rfl)
  · exact h

/-- The summands are what is reached, but for the sums and differences on the way. -/
theorem mem_summands_iff {e x : Expr} : x ∈ e.summands ↔ Reaches e x ∧ x.IsEnd := by
  induction e with
  | const q => exact mem_singleton_iff_of_isEnd (by rintro _ _ _ ⟨⟩)
  | mono m => exact mem_singleton_iff_of_isEnd (by rintro _ _ _ ⟨⟩)
  | bin op l r ihl ihr =>
    cases op with
    | add => exact mem_append_iff_of_isAdditive (by decide) ihl ihr
    | sub => exact mem_append_iff_of_isAdditive (by decide) ihl ihr
    | mul => exact mem_singleton_iff_of_isEnd (by rintro _ _ _ ⟨⟩; decide)
    | div => exact mem_singleton_iff_of_isEnd (by rintro _ _ _ ⟨⟩; decide)

/-- What stops the flattening is the first summand that is no leaf. -/
theorem firstProduct?_eq_find? (e : Expr) : e.firstProduct? = e.summands.find? isOperation := by
  induction e with
  | const q => rfl
  | mono m => rfl
  | bin op l r ihl ihr =>
    cases op with
    | add => rw [firstProduct?, summands, List.find?_append, ihl, ihr]
    | sub => rw [firstProduct?, summands, List.find?_append, ihl, ihr]
    | mul => rfl
    | div => rfl

theorem firstProduct?_eq_none_iff {e : Expr} :
    e.firstProduct? = none ↔ ∀ op l r, Reaches e (bin op l r) → IsAdditive op := by
  rw [firstProduct?_eq_find?, List.find?_eq_none]
  constructor
  · intro h op l r hreach
    by_contra hop
    have hmem : bin op l r ∈ e.summands :=
      mem_summands_iff.2 ⟨hreach, by rintro _ _ _ ⟨⟩; exact hop⟩
    exact h _ hmem rfl
  · intro h x hx hop
    obtain ⟨hreach, hend⟩ := mem_summands_iff.1 hx
    cases x with
    | const q => cases hop
    | mono m => cases hop
    | bin op l r => exact hend op l r rfl (h op l r hreach)

/-- **A flattening fails at the leftmost product or quotient that is reached**, and names it. -/
theorem exists_of_terms_eq_error {s : Sign} {e : Expr} {err : Error} (h : e.terms s = .error err) :
    ∃ op l r, e.summands.find? isOperation = some (bin op l r) ∧ Reaches e (bin op l r) ∧
      (op = .mul ∨ op = .div) ∧ err = .nonLinearTerm (bin op l r) := by
  obtain ⟨p, hp, rfl⟩ := terms_eq_error_iff.1 h
  rw [firstProduct?_eq_find?] at hp
  obtain ⟨hreach, hend⟩ := mem_summands_iff.1 (List.mem_of_find?_eq_some hp)
  have hop : isOperation p = true := List.find?_some hp
  cases p with
  | const q => cases hop
  | mono m => cases hop
  | bin op l r =>
    refine ⟨op, l, r, hp, hreach, ?_, rfl⟩
    have hn : ¬ IsAdditive op := hend op l r rfl
    cases op with
    | add => exact absurd (by decide) hn
    | sub => exact absurd (by decide) hn
    | mul => exact .inl rfl
    | div => exact .inr rfl

end Expr

open OneUnknown.Expr

/-! ## Flattening and migration -/

/-- **Flattening takes every leaf once, and migration keeps what an equation says.**  Flattening
    fails iff a product or quotient is reached, and names the leftmost one; the terms are the leaves
    in their order, with their names and signs, and add up to the value under the sign.  Migration
    keeps every variable term, and the left side minus the right side under every assignment. -/
theorem flattening_keeps :
    (∀ (s : Sign) (e : Expr),
      ((∃ ts, e.terms s = .ok ts) ↔ ∀ op l r, Reaches e (.bin op l r) → op = .add ∨ op = .sub) ∧
      (∀ ts, e.terms s = .ok ts → ts = (e.leaves.map fun p => (- ·)^[p.1 + s.flips] p.2) ∧
        (ts.filterMap Term.mono?).map (·.name) = e.occurrences ∧
        ∀ env, ∃ v, e.value? env = some v ∧ (ts.map (Term.value env)).sum = s.factor * v) ∧
      ∀ err, e.terms s = .error err → ∃ op l r, e.summands.find? isOperation = some (.bin op l r) ∧
        Reaches e (.bin op l r) ∧ (op = .mul ∨ op = .div) ∧ err = .nonLinearTerm (.bin op l r) ∧
        err.message = "terme non linéaire : " ++ (Expr.bin op l r).render) ∧
    ∀ eq moved : Equation, eq.migrate = .ok moved → moved.occurrences = eq.occurrences ∧
      ∀ env, ∃ d, eq.difference? env = some d ∧ moved.difference? env = some d := by
  refine ⟨fun s e => ⟨?_, fun ts hts => ?_, fun err herr => ?_⟩, fun eq moved h => ?_⟩
  · rw [exists_terms_iff]
    exact firstProduct?_eq_none_iff
  · refine ⟨eq_leaves_of_terms hts, names_of_terms hts, fun env => ?_⟩
    refine ⟨_, value?_of_terms env hts, ?_⟩
    rw [← mul_assoc, s.factor_mul_self, one_mul]
  · obtain ⟨op, l, r, hfind, hreach, hop, rfl⟩ := exists_of_terms_eq_error herr
    exact ⟨op, l, r, hfind, hreach, hop, rfl, rfl⟩
  · obtain ⟨hl, hr⟩ := Equation.occurrences_of_migrate h
    obtain ⟨ts, hts, us, hus, -⟩ := Equation.migrate_eq_ok_iff.1 h
    refine ⟨?_, fun env => ?_⟩
    · rw [Equation.occurrences, hl, hr, List.append_nil]
    · have hd : eq.difference? env = some _ := Equation.difference?_eq_some_iff.2
        ⟨_, _, value?_of_terms env hts, value?_of_terms env hus, rfl⟩
      exact ⟨_, hd, (Equation.difference?_of_migrate env h).trans hd⟩

/-- `2 - (3 - x) = 1 - 2y` -/
def crossedTerms : Equation where
  left := .bin .sub (.const 2) (.bin .sub (.const 3) (.unknown 'x'))
  right := .bin .sub (.const 1) (.mono ⟨'y', 2⟩)

/-- `x + 2y = (-2) + 3 + 1` -/
def crossedTermsMoved : Equation where
  left := .bin .add (.unknown 'x') (.mono ⟨'y', 2⟩)
  right := .bin .add (.bin .add (.const (-2)) (.const 3)) (.const 1)

/-- The signs of `x` and of `2y` are turned around twice. -/
theorem flattening_keeps_crossedTerms :
    crossedTerms.left.terms .plus = .ok [.const 2, .const (-3), .mono ⟨'x', 1⟩] ∧
    (crossedTerms.left.leaves.map fun p => (- ·)^[p.1] p.2) =
      [.const 2, .const (-3), .mono ⟨'x', 1⟩] ∧
    crossedTerms.migrate = .ok crossedTermsMoved ∧
    ∀ env, ∃ d, crossedTerms.difference? env = some d ∧
      crossedTermsMoved.difference? env = some d := by
  have ht : crossedTerms.left.terms .plus = .ok [.const 2, .const (-3), .mono ⟨'x', 1⟩] := by
    decide +kernel
  have hm : crossedTerms.migrate = .ok crossedTermsMoved := by decide +kernel
  obtain ⟨hleaves, -⟩ := (flattening_keeps.1 .plus crossedTerms.left).2.1 _ ht
  obtain ⟨-, hd⟩ := flattening_keeps.2 _ _ hm
  exact ⟨ht, hleaves.symm, hm, hd⟩

end OneUnknown
