/-
  Atoms: a number, a name, or a number and a name without anything between them.

  A run of digits is taken in full before it is read as a number, and a run of letters before it
  is refused as a name.
-/
import OneUnknown.Decimal
import OneUnknown.Grammar.Cursor

namespace OneUnknown.Grammar

/-! ## Runs -/

/-- The lexemes of the tokens of kind `k` at the front. -/
def runText (k : Kind) (ts : List Token) : List Char :=
  (ts.takeWhile (·.kind = k)).map (·.lexeme)

/-- The tokens behind those of kind `k` at the front. -/
def afterRun (k : Kind) (ts : List Token) : List Token :=
  ts.dropWhile (·.kind = k)

theorem length_run (k : Kind) (ts : List Token) :
    (runText k ts).length + (afterRun k ts).length = ts.length := by
  rw [runText, afterRun, List.length_map, ← List.length_append, List.takeWhile_append_dropWhile]

/-- The text of a number at the front: a run of digits, then perhaps a point and one more run. -/
def numberText (ts : List Token) : List Char :=
  runText .digit ts ++
    match afterRun .digit ts with
    | [] => []
    | t :: rest => if t.kind = .dot then '.' :: runText .digit rest else []

/-- The tokens behind a number at the front. -/
def afterNumber (ts : List Token) : List Token :=
  match afterRun .digit ts with
  | [] => []
  | t :: rest => if t.kind = .dot then afterRun .digit rest else t :: rest

theorem length_number (ts : List Token) :
    (numberText ts).length + (afterNumber ts).length = ts.length := by
  have h := length_run .digit ts
  unfold numberText afterNumber
  split
  · next hr => simp_all
  · next t rest hr =>
    have h' := length_run .digit rest
    split
    · simp_all
      omega
    · simp_all

/-! ## Atoms -/

/-- A number. -/
def number (c : Cursor) : Except Fault (Consumed Rat c) :=
  match h : Decimal.read (numberText c.rest) with
  | .error e => .error ⟨e, c.moved (afterNumber c.rest)⟩
  | .ok q => .ok ⟨q, c.moved (afterNumber c.rest), by
      have hne : numberText c.rest ≠ [] := fun h0 => by simp [h0, Decimal.read_nil] at h
      have := List.length_pos_iff.2 hne
      have := length_number c.rest
      simp only [Cursor.moved]
      omega⟩

/-- The name of an unknown: a run of exactly one letter. -/
def name (c : Cursor) : Except Fault (Consumed Char c) :=
  match h : runText .letter c.rest with
  | [n] => .ok ⟨n, c.moved (afterRun .letter c.rest), by
      have := length_run .letter c.rest
      simp only [h, List.length_cons, List.length_nil] at this
      simp only [Cursor.moved]
      omega⟩
  | letters => .error ⟨.invalidName (String.ofList letters), c.moved (afterRun .letter c.rest)⟩

/-- A number, a name, or a number that is the coefficient of the name behind it. -/
def atom (c : Cursor) : Except Fault (Consumed Expr c) :=
  if c.at? .letter then do
    let n ← name c
    return ⟨.unknown n.value, n.next, n.shorter⟩
  else do
    let q ← number c
    if q.next.at? .letter then do
      let n ← name q.next
      return ⟨.mono ⟨n.value, q.value⟩, n.next, Nat.lt_trans n.shorter q.shorter⟩
    else
      return ⟨.const q.value, q.next, q.shorter⟩

/-- An atom, where nothing else may stand. -/
def leaf (c : Cursor) : Except Fault (Consumed Expr c) :=
  match c.rest with
  | [] => .error ⟨.unexpectedEnd, c⟩
  | t :: _ => if t.kind.startsAtom then atom c else .error ⟨.unexpectedToken t, c⟩

end OneUnknown.Grammar
