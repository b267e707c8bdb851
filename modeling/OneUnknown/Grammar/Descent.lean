/-
  Recursive descent: from tokens to expressions and equations.

      equation ::= sum = sum
      sum      ::= product { (+ | -) product }
      product  ::= factor { (* | /) factor }
      factor   ::= [+ | -] ( atom | ( sum ) )
      atom     ::= number [letter] | letter

  Sums and products are read by one chain, which differs in the tier of its operations.  Each
  operation of a chain and each parenthesis opens a level, of which no more than `nestingLimit` are
  open at once; a chain closes its own levels when it ends, a parenthesis when it is closed.

  * `Expr.ofTokens` reads one side of an equation and leaves no token over.
  * `Equation.ofTokens` asks for exactly one equals sign before it looks at either side.
-/
import OneUnknown.Grammar.Atom

namespace OneUnknown

namespace Grammar

/-- How far above a factor a chain stands. -/
def Tier.rank : Tier → Nat
  | .product => 2
  | .sum => 4

mutual

/-- A chain of operands under the operations of one tier, grouped from the left. -/
def chain (tier : Tier) (c : Cursor) : Except Fault (Consumed Expr c) := do
  let first ← operand tier c
  let whole ← links tier c.depth first.value first.next
  return ⟨whole.value, whole.next, Nat.lt_of_le_of_lt whole.noLonger first.shorter⟩
  termination_by (c.rest.length, tier.rank + 1)
  decreasing_by
    · exact Prod.Lex.right _ (Nat.lt_succ_self _)
    · exact Prod.Lex.left _ _ first.shorter

/-- An operand in a chain: a product in a sum, a factor in a product. -/
def operand (tier : Tier) (c : Cursor) : Except Fault (Consumed Expr c) :=
  match tier with
  | .sum => chain .product c
  | .product => factor c
  termination_by (c.rest.length, tier.rank)
  decreasing_by
    · exact Prod.Lex.right _ (by decide)
    · exact Prod.Lex.right _ (by decide)

/-- The rest of a chain of which `left` is read; it ends with the levels above `base` closed. -/
def links (tier : Tier) (base : Nat) (left : Expr) (c : Cursor) :
    Except Fault (Passed Expr c) :=
  match c.operator? tier with
  | none => .ok ⟨left, c.backTo base, Nat.le_refl _⟩
  | some op => do
    let inner ← op.next.descend
    let right ← operand tier inner
    let whole ← links tier base (.bin op.value left right.value) right.next
    return ⟨whole.value, whole.next, Nat.le_trans whole.noLonger
      (Nat.le_of_lt (Nat.lt_trans right.shorter (inner.property.symm ▸ op.shorter)))⟩
  termination_by (c.rest.length, 0)
  decreasing_by
    all_goals have hi : inner.val.rest.length < c.rest.length := inner.property.symm ▸ op.shorter
    · exact Prod.Lex.left _ _ hi
    · exact Prod.Lex.left _ _ (Nat.lt_trans right.shorter hi)

/-- An atom or a sum in parentheses, after a sign or none. -/
def factor (c : Cursor) : Except Fault (Consumed Expr c) := do
  let inner ← primary c.sign.next
  return ⟨if c.sign.value then inner.value.negate else inner.value, inner.next,
    Nat.lt_of_lt_of_le inner.shorter c.sign.noLonger⟩
  termination_by (c.rest.length, 1)
  decreasing_by exact Prod.Lex.right' _ c.sign.noLonger (by decide)

/-- An atom or a sum in parentheses. -/
def primary (c : Cursor) : Except Fault (Consumed Expr c) :=
  match c.token? .lparen with
  | none => leaf c
  | some opened => do
    let inner ← opened.next.descend
    let body ← chain .sum inner
    match body.next.token? .rparen with
    | none => .error ⟨.unmatchedParenthesis, body.next⟩
    | some closed => return ⟨body.value, closed.next.ascend, Nat.lt_trans closed.shorter
        (Nat.lt_trans body.shorter (inner.property.symm ▸ opened.shorter))⟩
  termination_by (c.rest.length, 0)
  decreasing_by exact Prod.Lex.left _ _ (inner.property.symm ▸ opened.shorter)

end

end Grammar

/-- The expression that a list of tokens spells from its first token to its last. -/
def Expr.ofTokens (ts : List Token) : Except Error Expr :=
  match Grammar.chain .sum (Grammar.Cursor.start ts) with
  | .error fault => .error fault.error
  | .ok whole =>
    match whole.next.rest with
    | [] => .ok whole.value
    | t :: _ => .error (.unexpectedToken t)

/-- The equation that a list of tokens spells. -/
def Equation.ofTokens (ts : List Token) : Except Error Equation :=
  match ts with
  | [] => .error .emptyInput
  | _ =>
    match ts.dropWhile (·.kind ≠ .equal) with
    | [] => .error .malformedEquation
    | _ :: right =>
      if right.any (·.kind = .equal) then .error .malformedEquation
      else return ⟨← Expr.ofTokens (ts.takeWhile (·.kind ≠ .equal)), ← Expr.ofTokens right⟩

end OneUnknown
