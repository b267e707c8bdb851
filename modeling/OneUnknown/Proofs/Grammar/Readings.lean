/-
  The reader by equations between plain pairs.

  * A value read from a cursor carries a proof about that cursor, so two readings from different
    places have different types.  `Consumed.pair` and `Passed.pair` leave the proof out.
  * One equation for each way in which a part of the reader goes on, under what it goes on by.
-/
import OneUnknown.Proofs.Grammar.Soundness

namespace OneUnknown.Grammar

section
variable {α : Type} {c : Cursor}

/-- What is read and where the reading stops. -/
def Consumed.pair (r : Consumed α c) : α × Cursor :=
  (r.value, r.next)

/-- What is read and where the reading stops. -/
def Passed.pair (r : Passed α c) : α × Cursor :=
  (r.value, r.next)

end

section
variable {c : Cursor}

theorem name_pair_of_eq {n : Char} (h : runText .letter c.rest = [n]) :
    (name c).map Consumed.pair = .ok (n, c.moved (afterRun .letter c.rest)) := by
  unfold name
  split
  · next m hm =>
    rw [h] at hm
    cases hm
    rfl
  · next hn => exact absurd h (hn n)

theorem name_pair_of_length_ne (h : (runText .letter c.rest).length ≠ 1) :
    (name c).map Consumed.pair = .error ⟨.invalidName (String.ofList (runText .letter c.rest)),
      c.moved (afterRun .letter c.rest)⟩ := by
  unfold name
  split
  · next n hn =>
    rw [hn] at h
    exact absurd rfl h
  · rfl

theorem number_pair_of_ok {q : Rat} (h : Decimal.read (numberText c.rest) = .ok q) :
    (number c).map Consumed.pair = .ok (q, c.moved (afterNumber c.rest)) := by
  unfold number
  split
  · next e he =>
    rw [h] at he
    cases he
  · next q' hq =>
    rw [h] at hq
    cases hq
    rfl

theorem number_pair_of_error {e : Error} (h : Decimal.read (numberText c.rest) = .error e) :
    (number c).map Consumed.pair = .error ⟨e, c.moved (afterNumber c.rest)⟩ := by
  unfold number
  split
  · next e' he =>
    rw [h] at he
    cases he
    rfl
  · next q hq =>
    rw [h] at hq
    cases hq

end

/-- What a number is, with the name behind it of which it may be the coefficient. -/
def scaledName (p : Rat × Cursor) : Except Fault (Expr × Cursor) :=
  if p.2.at? .letter then
    (name p.2).map Consumed.pair >>= fun n => .ok (.mono ⟨n.1, p.1⟩, n.2)
  else .ok (.const p.1, p.2)

theorem atom_pair (c : Cursor) : (atom c).map Consumed.pair =
    if c.at? .letter then (name c).map Consumed.pair >>= fun n => .ok (.unknown n.1, n.2)
    else (number c).map Consumed.pair >>= scaledName := by
  unfold atom
  split_ifs with hl
  · cases name c <;> rfl
  · cases number c with
    | error fault => rfl
    | ok q =>
      show Except.map _ (ite (q.next.at? .letter = true) _ _) = ite (q.next.at? .letter = true) _ _
      split_ifs with hl'
      · show Except.map _ (name q.next >>= _) = (name q.next).map Consumed.pair >>= _
        cases name q.next <;> rfl
      · rfl

theorem Cursor.sign_of_stops {c : Cursor} (h : Stops Tier.sum.isOperator c.rest) :
    c.sign = ⟨false, c, Nat.le_refl _⟩ := by
  rw [sign, operator?_eq_none_iff.2 h]

theorem factor_pair (c : Cursor) : (factor c).map Consumed.pair =
    (primary c.sign.next).map Consumed.pair >>= fun p =>
      .ok (if c.sign.value then p.1.negate else p.1, p.2) := by
  rw [factor]
  cases primary c.sign.next <;> rfl

theorem primary_of_stops {c : Cursor} (h : Stops (decide <| · = .lparen) c.rest) :
    primary c = leaf c := by
  rw [primary, Cursor.token?_eq_none_iff.2 h]

/-- The closing parenthesis behind a sum. -/
def closeParens (p : Expr × Cursor) : Except Fault (Expr × Cursor) :=
  match p.2.rest with
  | [] => .error ⟨.unmatchedParenthesis, p.2⟩
  | t :: ts =>
    if t.kind = .rparen then .ok (p.1, (p.2.moved ts).ascend)
    else .error ⟨.unmatchedParenthesis, p.2⟩

theorem closeParens_of_nil {e : Expr} {d : Cursor} (hd : d.rest = []) :
    closeParens (e, d) = .error ⟨.unmatchedParenthesis, d⟩ := by
  simp only [closeParens, hd]

theorem closeParens_of_cons {e : Expr} {d : Cursor} {t : Token} {ts : List Token}
    (hd : d.rest = t :: ts) : closeParens (e, d) =
      if t.kind = .rparen then .ok (e, (d.moved ts).ascend)
      else .error ⟨.unmatchedParenthesis, d⟩ := by
  simp only [closeParens, hd]

section
variable {c : Cursor} {t : Token} {ts : List Token}

theorem Cursor.descend_of_limit (h : ¬ c.depth < nestingLimit) :
    c.descend = .error ⟨.tooDeep nestingLimit, c.deeper⟩ :=
  if_neg h

theorem primary_pair_of_limit (hc : c.rest = t :: ts) (ht : t.kind = .lparen)
    (hlt : ¬ c.depth < nestingLimit) : (primary c).map Consumed.pair =
      .error ⟨.tooDeep nestingLimit, (c.moved ts).deeper⟩ := by
  have hdesc := Cursor.descend_of_limit (c := c.moved ts) hlt
  rw [primary, Cursor.token?_of_cons hc ht]
  show Except.map _ ((c.moved ts).descend >>= _) = _
  rw [hdesc]
  rfl

theorem primary_pair_of_lparen (hc : c.rest = t :: ts) (ht : t.kind = .lparen)
    (hlt : c.depth < nestingLimit) : (primary c).map Consumed.pair =
      (chain .sum (c.moved ts).deeper).map Consumed.pair >>= closeParens := by
  have hdesc : (c.moved ts).descend = .ok ⟨(c.moved ts).deeper, rfl⟩ :=
    Cursor.descend_eq_ok_iff.2 ⟨hlt, rfl⟩
  rw [primary, Cursor.token?_of_cons hc ht]
  show Except.map _ ((c.moved ts).descend >>= _) = _
  rw [hdesc]
  show Except.map _ (chain .sum (c.moved ts).deeper >>= _) = _
  cases chain .sum (c.moved ts).deeper with
  | error fault => rfl
  | ok body =>
    show Except.map _ (Except.ok body >>= _) = closeParens (body.value, body.next)
    cases hb : body.next.rest with
    | nil =>
      have hno : body.next.token? .rparen = none :=
        Cursor.token?_eq_none_iff.2 (hb ▸ stops_nil)
      rw [closeParens_of_nil hb]
      simp only [bind, Except.bind, hno, Except.map]
    | cons u us =>
      rw [closeParens_of_cons hb]
      split_ifs with hu
      · simp only [bind, Except.bind, Cursor.token?_of_cons hb hu]
        rfl
      · have hno : body.next.token? .rparen = none :=
          Cursor.token?_eq_none_iff.2 (hb ▸ stops_cons_iff.2 (decide_eq_false hu))
        simp only [bind, Except.bind, hno, Except.map]

end

theorem chain_pair (tier : Tier) (c : Cursor) : (chain tier c).map Consumed.pair =
    (operand tier c).map Consumed.pair >>= fun l =>
      (links tier c.depth l.1 l.2).map Passed.pair := by
  rw [chain]
  cases operand tier c with
  | error fault => rfl
  | ok first =>
    show Except.map _ (links tier c.depth first.value first.next >>= _) =
      (links tier c.depth first.value first.next).map Passed.pair
    cases links tier c.depth first.value first.next <;> rfl

section
variable {tier : Tier} {base : Nat} {l : Expr} {c : Cursor}

theorem links_pair_of_stops (h : Stops tier.isOperator c.rest) :
    (links tier base l c).map Passed.pair = .ok (l, c.backTo base) := by
  rw [links, Cursor.operator?_eq_none_iff.2 h]
  rfl

theorem links_pair_of_limit {t : Token} {ts : List Token} {op : Op} (hc : c.rest = t :: ts)
    (hop : tier.op? t.kind = some op) (hlt : ¬ c.depth < nestingLimit) :
    (links tier base l c).map Passed.pair =
      .error ⟨.tooDeep nestingLimit, (c.moved ts).deeper⟩ := by
  have hdesc := Cursor.descend_of_limit (c := c.moved ts) hlt
  rw [links, Cursor.operator?_of_cons hc hop]
  show Except.map _ ((c.moved ts).descend >>= _) = _
  rw [hdesc]
  rfl

theorem links_pair_of_cons {t : Token} {ts : List Token} {op : Op} (hc : c.rest = t :: ts)
    (hop : tier.op? t.kind = some op) (hlt : c.depth < nestingLimit) :
    (links tier base l c).map Passed.pair =
      (operand tier (c.moved ts).deeper).map Consumed.pair >>= fun r =>
        (links tier base (.bin op l r.1) r.2).map Passed.pair := by
  have hdesc : (c.moved ts).descend = .ok ⟨(c.moved ts).deeper, rfl⟩ :=
    Cursor.descend_eq_ok_iff.2 ⟨hlt, rfl⟩
  rw [links, Cursor.operator?_of_cons hc hop]
  show Except.map _ ((c.moved ts).descend >>= _) = _
  rw [hdesc]
  show Except.map _ (operand tier (c.moved ts).deeper >>= _) = _
  cases operand tier (c.moved ts).deeper with
  | error fault => rfl
  | ok r =>
    show Except.map _ (links tier base (.bin op l r.value) r.next >>= _) =
      (links tier base (.bin op l r.value) r.next).map Passed.pair
    cases links tier base (.bin op l r.value) r.next <;> rfl

end

end OneUnknown.Grammar
