/-
  The grammar of expressions as a relation, beside the reader that decides it.

  * `Derives scale c ts e n`: the tokens `ts`, from the first to the last, are a construct of class
    `c` that stands for `e` and for which `n` levels have to be opened.
  * `k` digits behind a point count in units of `1 / scale k`: the grammar's own scale is `10 ^ k`,
    and the reader's is `Decimal.tenTo k`, which is the same below `2 ^ 32`.
  * An atom needs no level, a parenthesis one more than what it encloses, and a chain
    `x₀ op x₁ op … op xₖ` the largest of `i + n i`, where `n i` is what `xᵢ` needs.
  * Nothing here says that runs of digits or letters are maximal: no two atoms stand side by side.
-/
import Mathlib.Algebra.Field.Rat
import OneUnknown.Grammar.Atom

namespace OneUnknown.Grammar

/-- The number written by a run of digit tokens. -/
def naturalOf (ds : List Token) : Nat :=
  Decimal.natural (ds.map (·.lexeme))

/-- The tokens spell a number. -/
inductive Number (scale : Nat → Nat) : List Token → Rat → Prop
  /-- digits -/
  | whole {ds} : ds ≠ [] → (∀ t ∈ ds, t.kind = .digit) → Number scale ds (naturalOf ds)
  /-- digits, which may be missing, a point, digits -/
  | pointed {ds p fs} : (∀ t ∈ ds, t.kind = .digit) → p.kind = .dot → fs ≠ [] →
      (∀ t ∈ fs, t.kind = .digit) →
      Number scale (ds ++ p :: fs) (naturalOf ds + naturalOf fs / (scale fs.length : Rat))

/-- The constructs of the grammar; a chain is told with the number of its operations. -/
inductive Construct where
  | chain (tier : Tier) (operations : Nat)
  | operand (tier : Tier)
  | factor
  | primary
  | atom
  deriving DecidableEq, Repr

/-- The tokens are a construct that stands for an expression and needs a number of levels. -/
inductive Derives (scale : Nat → Nat) : Construct → List Token → Expr → Nat → Prop
  /-- a number -/
  | number {ts q} : Number scale ts q → Derives scale .atom ts (.const q) 0
  /-- a number and a letter -/
  | scaled {ts q t} : Number scale ts q → t.kind = .letter →
      Derives scale .atom (ts ++ [t]) (.mono ⟨t.lexeme, q⟩) 0
  /-- a letter -/
  | letter {t} : t.kind = .letter → Derives scale .atom [t] (.unknown t.lexeme) 0
  /-- an atom -/
  | atom {ts e n} : Derives scale .atom ts e n → Derives scale .primary ts e n
  /-- a sum in parentheses -/
  | parens {k o ts c e n} : o.kind = .lparen → Derives scale (.chain .sum k) ts e n →
      c.kind = .rparen → Derives scale .primary (o :: ts ++ [c]) e (n + 1)
  /-- no sign -/
  | unsigned {ts e n} : Derives scale .primary ts e n → Derives scale .factor ts e n
  /-- a plus sign, which changes nothing -/
  | plus {t ts e n} : t.kind = .plus → Derives scale .primary ts e n →
      Derives scale .factor (t :: ts) e n
  /-- a minus sign -/
  | minus {t ts e n} : t.kind = .minus → Derives scale .primary ts e n →
      Derives scale .factor (t :: ts) e.negate n
  /-- a product in a sum -/
  | product {k ts e n} : Derives scale (.chain .product k) ts e n →
      Derives scale (.operand .sum) ts e n
  /-- a factor in a product -/
  | factor {ts e n} : Derives scale .factor ts e n → Derives scale (.operand .product) ts e n
  /-- an operand on its own -/
  | single {tier ts e n} : Derives scale (.operand tier) ts e n →
      Derives scale (.chain tier 0) ts e n
  /-- one more operand, grouped from the left -/
  | link {tier k ts t us op l r n m} : Derives scale (.chain tier k) ts l n →
      tier.op? t.kind = some op → Derives scale (.operand tier) us r m →
      Derives scale (.chain tier (k + 1)) (ts ++ t :: us) (.bin op l r) (max n (k + 1 + m))

end OneUnknown.Grammar
