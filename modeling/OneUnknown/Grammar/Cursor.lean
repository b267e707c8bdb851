/-
  The place reached in a list of tokens, with a count of the levels open there.

  * A `Cursor` has the tokens still to be read, the number `depth` of levels open, and the largest
    number `peak` of levels that were ever open at once.  `descend` opens a level and fails beyond
    `nestingLimit`; `ascend` closes one.
  * `Consumed α c` is a value read from `c` with the cursor behind it, strictly further on;
    `Passed α c` need not have moved.  Both carry the proof, which is what recursion ends by.
  * `operator?`, `sign` and `token?` read one token; a `Fault` says where a reading failed.
-/
import OneUnknown.Error

namespace OneUnknown.Grammar

/-- The largest number of levels that may be open at once. -/
def nestingLimit : Nat := 512

/-! ## Cursors -/

/-- The tokens still to be read and the levels open. -/
structure Cursor where
  rest : List Token
  depth : Nat
  peak : Nat
  deriving DecidableEq, Repr

/-- An error and the place where it was found. -/
structure Fault where
  error : Error
  place : Cursor
  deriving DecidableEq, Repr

/-- A value read from `c`, of which at least one token is consumed. -/
structure Consumed (α : Type) (c : Cursor) where
  value : α
  next : Cursor
  shorter : next.rest.length < c.rest.length

/-- A value read from `c`, of which perhaps no token is consumed. -/
structure Passed (α : Type) (c : Cursor) where
  value : α
  next : Cursor
  noLonger : next.rest.length ≤ c.rest.length

namespace Cursor

/-- The start of a list of tokens, with no level open. -/
def start (ts : List Token) : Cursor :=
  ⟨ts, 0, 0⟩

/-- The same place with the tokens `ts` still to be read. -/
def moved (c : Cursor) (ts : List Token) : Cursor :=
  { c with rest := ts }

/-- The same place with one more level open. -/
def deeper (c : Cursor) : Cursor :=
  { c with depth := c.depth + 1, peak := max c.peak (c.depth + 1) }

/-- The same place with one level fewer open. -/
def ascend (c : Cursor) : Cursor :=
  { c with depth := c.depth - 1 }

/-- The same place with the levels above `base` closed. -/
def backTo (base : Nat) (c : Cursor) : Cursor :=
  { c with depth := base }

/-- Open one more level, up to the limit. -/
def descend (c : Cursor) : Except Fault { d : Cursor // d.rest = c.rest } :=
  if c.depth < nestingLimit then .ok ⟨c.deeper, rfl⟩
  else .error ⟨.tooDeep nestingLimit, c.deeper⟩

/-- The next token is of kind `k`. -/
def at? (k : Kind) (c : Cursor) : Bool :=
  match c.rest with
  | [] => false
  | t :: _ => decide (t.kind = k)

end Cursor

/-! ## Tiers of operations -/

/-- The two kinds of chains: sums of terms and products of factors. -/
inductive Tier where
  | sum
  | product
  deriving DecidableEq, Repr

/-- The operation that a kind of token stands for in a chain of one tier. -/
def Tier.op? : Tier → Kind → Option Op
  | .sum, .plus => some .add
  | .sum, .minus => some .sub
  | .product, .times => some .mul
  | .product, .divide => some .div
  | _, _ => none

namespace Cursor

/-- The operation of tier `tier` at the cursor, if there is one. -/
def operator? (tier : Tier) (c : Cursor) : Option (Consumed Op c) :=
  match h : c.rest with
  | [] => none
  | t :: ts => (tier.op? t.kind).map fun op => ⟨op, c.moved ts, by simp [moved, h]⟩

/-- The sign in front of a factor, which may be missing: whether it is a minus. -/
def sign (c : Cursor) : Passed Bool c :=
  match c.operator? .sum with
  | none => ⟨false, c, Nat.le_refl _⟩
  | some op => ⟨decide (op.value = .sub), op.next, Nat.le_of_lt op.shorter⟩

/-- The token of kind `k` at the cursor, if there is one. -/
def token? (k : Kind) (c : Cursor) : Option (Consumed Unit c) :=
  match h : c.rest with
  | [] => none
  | t :: ts => if t.kind = k then some ⟨(), c.moved ts, by simp [moved, h]⟩ else none

end Cursor

end OneUnknown.Grammar
