/-
  One token of lookahead: what is read does not depend on anything behind the token at which the
  reading stops.

  * `Local ts x`, where `x us` is what reading `us` gives: the reading of `ts` takes some tokens
    from the front, and takes the same ones wherever they stand before that token.
  * `Local.bind`: two readings one after the other; `Local.cons`, `Local.congr`: a reading that goes
    on from the next token, or only looks at it.
  * `local_chain` and its companions follow the recursion of the reader.
-/
import OneUnknown.Proofs.Grammar.AtomOutlook

namespace OneUnknown.Grammar

/-! ## Readings that look one token ahead -/

theorem Stops.of_head? {p : Kind → Bool} {ts us : List Token} (h : Stops p ts)
    (hu : us.head? = ts.head?) : Stops p us := by
  rw [Stops, hu]
  exact h

section
variable {α β : Type}

/-- What is read of the tokens `ts` is read of any tokens that are the same up to the one at which
    the reading stops. -/
def Local (ts : List Token) (x : List Token → Except Fault (α × Cursor)) : Prop :=
  ∀ a d, x ts = .ok (a, d) → ∃ us, ts = us ++ d.rest ∧
    ∀ vs, vs.head? = d.rest.head? → x (us ++ vs) = .ok (a, d.moved vs)

section
variable {ts : List Token} {x : List Token → Except Fault (α × Cursor)}

theorem Local.cons {t : Token} {y : List Token → Except Fault (α × Cursor)} (h : Local ts x)
    (hy : ∀ us, y (t :: us) = x us) : Local (t :: ts) y := by
  intro a d ha
  rw [hy] at ha
  obtain ⟨us, hts, hext⟩ := h a d ha
  refine ⟨t :: us, by rw [hts, List.cons_append], fun vs hvs => ?_⟩
  rw [List.cons_append, hy]
  exact hext vs hvs

theorem Local.congr {y : List Token → Except Fault (α × Cursor)} (h : Local ts x)
    (hy : ∀ us, us.head? = ts.head? → y us = x us) : Local ts y := by
  intro a d ha
  rw [hy ts rfl] at ha
  obtain ⟨us, hts, hext⟩ := h a d ha
  refine ⟨us, hts, fun vs hvs => ?_⟩
  rw [hy]
  · exact hext vs hvs
  · rw [hts, List.head?_append, List.head?_append, hvs]

/-- Nothing is read. -/
theorem local_ok (a : α) (d : Cursor) : Local d.rest fun us => .ok (a, d.moved us) := by
  intro b e h
  cases h
  exact ⟨[], rfl, fun vs _ => rfl⟩

theorem local_error {f : List Token → Fault} :
    Local ts fun us => (.error (f us) : Except Fault (α × Cursor)) := by
  rintro a d ⟨⟩

/-- **One reading after the other.** -/
theorem Local.bind {g : α × Cursor → Except Fault (β × Cursor)} (h : Local ts x)
    (hg : ∀ a d, x ts = .ok (a, d) → Local d.rest fun us => g (a, d.moved us)) :
    Local ts fun us => x us >>= g := by
  intro b e hb
  obtain ⟨⟨a, d⟩, ha, hgb⟩ := bind_eq_ok_iff.1 hb
  obtain ⟨us, hts, hext⟩ := h a d ha
  obtain ⟨us', hd, hext'⟩ := hg a d ha b e hgb
  refine ⟨us ++ us', by rw [hts, hd, List.append_assoc], fun vs hvs => ?_⟩
  -- the second reading looks at the same token as before, or at what stands at its end
  have hhead : (us' ++ vs).head? = d.rest.head? := by
    rw [hd, List.head?_append, List.head?_append, hvs]
  rw [List.append_assoc]
  exact bind_eq_ok_iff.2 ⟨_, hext _ hhead, hext' vs hvs⟩

/-- What is made of the value does not matter. -/
theorem Local.map (h : Local ts x) (f : α → β) :
    Local ts fun us => x us >>= fun p => .ok (f p.1, p.2) :=
  h.bind fun a d _ => local_ok (f a) d

end

end

/-! ## Atoms -/

/-- A run is known from its tokens and the one behind them. -/
theorem local_run (k : Kind) (ts : List Token) : ∃ us, ts = us ++ afterRun k ts ∧
    ∀ vs, vs.head? = (afterRun k ts).head? →
      runText k (us ++ vs) = runText k ts ∧ afterRun k (us ++ vs) = vs := by
  obtain ⟨us, hts, hk, htext⟩ := exists_run k ts
  refine ⟨us, hts, fun vs hvs => ?_⟩
  have hstop := (stops_afterRun k ts).of_head? hvs
  exact ⟨(runText_append hk hstop).trans htext.symm, afterRun_append hk hstop⟩

/-- A number is known from its tokens and the one behind them. -/
theorem local_numeral (ts : List Token) : ∃ us, ts = us ++ afterNumber ts ∧
    ∀ vs, vs.head? = (afterNumber ts).head? →
      numberText (us ++ vs) = numberText ts ∧ afterNumber (us ++ vs) = vs := by
  obtain ⟨us, hts, hrun⟩ := local_run .digit ts
  cases hr : afterRun .digit ts with
  | nil =>
    have hafter : afterNumber ts = [] := by rw [afterNumber, hr]
    refine ⟨us, by rw [hafter, ← hr]; exact hts, fun vs hvs => ?_⟩
    rw [hafter, List.head?_nil, List.head?_eq_none_iff] at hvs
    subst hvs
    have hus : us ++ [] = ts := by rw [← hr, ← hts]
    rw [hus]
    exact ⟨rfl, hafter⟩
  | cons p rest =>
    by_cases hdot : p.kind = .dot
    · -- the digits behind the point are the last run
      obtain ⟨fs, hrest, hfrac⟩ := local_run .digit rest
      have hafter : afterNumber ts = afterRun .digit rest := by
        simp only [afterNumber, hr, hdot, if_true]
      refine ⟨us ++ p :: fs, ?_, fun vs hvs => ?_⟩
      · rw [hafter, List.append_assoc, List.cons_append, ← hrest, ← hr]
        exact hts
      · rw [hafter] at hvs
        obtain ⟨htext, hrun'⟩ := hrun (p :: (fs ++ vs)) (by rw [hr]; rfl)
        obtain ⟨hftext, hfrun⟩ := hfrac vs hvs
        rw [List.append_assoc, List.cons_append]
        simp only [numberText, afterNumber, htext, hrun', hr, hdot, if_true, hftext, hfrun,
          and_self]
    · have hafter : afterNumber ts = p :: rest := by
        simp only [afterNumber, hr, hdot, if_false]
      refine ⟨us, by rw [hafter, ← hr]; exact hts, fun vs hvs => ?_⟩
      obtain ⟨htext, hrun'⟩ := hrun vs (by rw [hvs, hafter, hr])
      rw [hafter] at hvs
      obtain ⟨vs', rfl⟩ : ∃ vs', vs = p :: vs' := List.head?_eq_some_iff.1 hvs
      simp only [numberText, afterNumber, htext, hrun', hr, hdot, if_false, and_self]

theorem local_name (c : Cursor) :
    Local c.rest fun us => (name (c.moved us)).map Consumed.pair := by
  intro n d h
  obtain ⟨us, hts, hrun⟩ := local_run .letter c.rest
  by_cases hone : (runText .letter c.rest).length = 1
  · obtain ⟨m, hm⟩ := List.length_eq_one_iff.1 hone
    cases h.symm.trans (name_pair_of_eq (c := c.moved c.rest) hm)
    refine ⟨us, hts, fun vs hvs => ?_⟩
    obtain ⟨htext, hafter⟩ := hrun vs hvs
    have hread := name_pair_of_eq (c := c.moved (us ++ vs)) (htext.trans hm)
    exact hread.trans (congrArg (fun ts => Except.ok (n, c.moved ts)) hafter)
  · cases h.symm.trans (name_pair_of_length_ne (c := c.moved c.rest) hone)

theorem local_number (c : Cursor) :
    Local c.rest fun us => (number (c.moved us)).map Consumed.pair := by
  intro q d h
  obtain ⟨us, hts, hnum⟩ := local_numeral c.rest
  cases hread : Decimal.read (numberText c.rest) with
  | error e => cases h.symm.trans (number_pair_of_error (c := c.moved c.rest) hread)
  | ok q' =>
    cases h.symm.trans (number_pair_of_ok (c := c.moved c.rest) hread)
    refine ⟨us, hts, fun vs hvs => ?_⟩
    obtain ⟨htext, hafter⟩ := hnum vs hvs
    have hread' := number_pair_of_ok (c := c.moved (us ++ vs)) ((congrArg _ htext).trans hread)
    exact hread'.trans (congrArg (fun ts => Except.ok (q, c.moved ts)) hafter)

theorem Cursor.at?_moved {c d : Cursor} {k : Kind} {us : List Token}
    (h : us.head? = d.rest.head?) : (c.moved us).at? k = d.at? k := by
  cases us <;> cases hd : d.rest <;> rw [hd] at h <;> cases h <;> simp only [at?, moved, hd]

theorem local_scaledName (q : Rat) (c : Cursor) :
    Local c.rest fun us => scaledName (q, c.moved us) := by
  by_cases hl : c.at? .letter = true
  · refine ((local_name c).map fun n => Expr.mono ⟨n, q⟩).congr fun us hus => ?_
    exact if_pos (by rwa [Cursor.at?_moved hus])
  · refine (local_ok (Expr.const q) c).congr fun us hus => ?_
    exact if_neg (by rwa [Cursor.at?_moved hus])

theorem local_atom (c : Cursor) :
    Local c.rest fun us => (atom (c.moved us)).map Consumed.pair := by
  by_cases hl : c.at? .letter = true
  · refine ((local_name c).map Expr.unknown).congr fun us hus => ?_
    rw [atom_pair, Cursor.at?_moved hus, if_pos hl]
  · refine ((local_number c).bind (g := scaledName)
      fun q d _ => local_scaledName q d).congr fun us hus => ?_
    rw [atom_pair, Cursor.at?_moved hus, if_neg hl]

theorem local_leaf (c : Cursor) :
    Local c.rest fun us => (leaf (c.moved us)).map Consumed.pair := by
  cases hc : c.rest with
  | nil =>
    intro a d h
    cases h
  | cons t ts =>
    have hleaf : ∀ us, us.head? = (t :: ts).head? → leaf (c.moved us) =
        if t.kind.startsAtom then atom (c.moved us)
        else .error ⟨.unexpectedToken t, c.moved us⟩ := by
      intro us hus
      obtain ⟨us', rfl⟩ : ∃ us', us = t :: us' := List.head?_eq_some_iff.1 hus
      rfl
    rw [← hc] at hleaf ⊢
    by_cases ht : t.kind.startsAtom = true
    · refine (local_atom c).congr fun us hus => ?_
      rw [hleaf us hus, if_pos ht]
    · refine (local_error (f := fun us => ⟨.unexpectedToken t, c.moved us⟩)).congr fun us hus => ?_
      rw [hleaf us hus, if_neg ht]
      rfl

/-! ## The reader -/

theorem Consumed.length_lt_of_pair {α : Type} {c : Cursor} {x : Except Fault (Consumed α c)} {a : α}
    {d : Cursor} (h : x.map Consumed.pair = .ok (a, d)) : d.rest.length < c.rest.length := by
  cases x with
  | error fault => cases h
  | ok r =>
    cases h
    exact r.shorter

/-- The closing parenthesis is one token. -/
theorem local_closeParens (e : Expr) (d : Cursor) :
    Local d.rest fun us => closeParens (e, d.moved us) := by
  cases hd : d.rest with
  | nil =>
    intro a b h
    cases h
  | cons t ts =>
    have hclose : ∀ us, closeParens (e, d.moved (t :: us)) =
        if t.kind = .rparen then .ok (e, (d.moved us).ascend)
        else .error ⟨.unmatchedParenthesis, d.moved (t :: us)⟩ :=
      fun us => closeParens_of_cons rfl
    by_cases ht : t.kind = .rparen
    · refine (local_ok e (d.moved ts).ascend).cons fun us => ?_
      rw [hclose, if_pos ht]
      rfl
    · refine (local_error (f := fun us => ⟨.unmatchedParenthesis, d.moved (t :: us)⟩)).cons
        fun us => ?_
      rw [hclose, if_neg ht]

mutual

/-- **What a chain takes does not depend on what is behind the token it stops at.** -/
theorem local_chain (tier : Tier) (c : Cursor) :
    Local c.rest fun us => (chain tier (c.moved us)).map Consumed.pair := by
  have hx : ∀ us, (chain tier (c.moved us)).map Consumed.pair = _ :=
    fun us => chain_pair tier (c.moved us)
  simp only [hx]
  exact (local_operand tier c).bind fun l d hd => local_links tier c.depth l d
  termination_by (c.rest.length, tier.rank + 1)
  decreasing_by
    · exact Prod.Lex.right _ (Nat.lt_succ_self _)
    · exact Prod.Lex.left _ _ (Consumed.length_lt_of_pair hd)

theorem local_operand (tier : Tier) (c : Cursor) :
    Local c.rest fun us => (operand tier (c.moved us)).map Consumed.pair := by
  cases tier with
  | sum => simpa only [operand] using local_chain .product c
  | product => simpa only [operand] using local_factor c
  termination_by (c.rest.length, tier.rank)
  decreasing_by
    · exact Prod.Lex.right _ (by decide)
    · exact Prod.Lex.right _ (by decide)

theorem local_links (tier : Tier) (base : Nat) (l : Expr) (c : Cursor) :
    Local c.rest fun us => (links tier base l (c.moved us)).map Passed.pair := by
  cases ho : c.operator? tier with
  | none =>
    refine (local_ok l (c.backTo base)).congr fun us hus => ?_
    exact links_pair_of_stops ((Cursor.operator?_eq_none_iff.1 ho).of_head? hus)
  | some o =>
    obtain ⟨t, ts, hc, hop, -⟩ := Cursor.operator?_eq_some_iff.1 ho
    rw [hc]
    by_cases hlt : c.depth < nestingLimit
    · refine ((local_operand tier (c.moved ts).deeper).bind
        (g := fun r => (links tier base (.bin o.value l r.1) r.2).map Passed.pair)
        fun r d hd => local_links tier base (.bin o.value l r) d).cons fun us => ?_
      exact links_pair_of_cons rfl hop hlt
    · refine (local_error (f := fun us => ⟨.tooDeep nestingLimit, (c.moved us).deeper⟩)).cons
        fun us => ?_
      exact links_pair_of_limit rfl hop hlt
  termination_by (c.rest.length, 0)
  decreasing_by
    · exact Prod.Lex.left _ _ (Cursor.length_moved_lt hc)
    · exact Prod.Lex.left _ _
        ((Consumed.length_lt_of_pair hd).trans (Cursor.length_moved_lt hc))

theorem local_factor (c : Cursor) :
    Local c.rest fun us => (factor (c.moved us)).map Consumed.pair := by
  cases ho : c.operator? .sum with
  | none =>
    refine ((local_primary c).map id).congr fun us hus => ?_
    have hstop := (Cursor.operator?_eq_none_iff.1 ho).of_head? hus
    rw [factor_pair, Cursor.sign_of_stops (c := c.moved us) hstop]
    rfl
  | some o =>
    obtain ⟨t, ts, hc, hop, -⟩ := Cursor.operator?_eq_some_iff.1 ho
    rw [hc]
    refine ((local_primary (c.moved ts)).map fun e =>
      if decide (o.value = .sub) then e.negate else e).cons fun us => ?_
    obtain ⟨hv, hn⟩ := Cursor.sign_of_operator (c := c.moved (t :: us)) rfl hop
    rw [factor_pair, hv, hn]
    rfl
  termination_by (c.rest.length, 1)
  decreasing_by
    · exact Prod.Lex.right _ Nat.one_pos
    · exact Prod.Lex.left _ _ (Cursor.length_moved_lt hc)

theorem local_primary (c : Cursor) :
    Local c.rest fun us => (primary (c.moved us)).map Consumed.pair := by
  cases ho : c.token? .lparen with
  | none =>
    refine (local_leaf c).congr fun us hus => ?_
    have hstop := (Cursor.token?_eq_none_iff.1 ho).of_head? hus
    rw [primary_of_stops (c := c.moved us) hstop]
  | some o =>
    obtain ⟨t, ts, hc, ht, -⟩ := Cursor.token?_eq_some_iff.1 ho
    rw [hc]
    by_cases hlt : c.depth < nestingLimit
    · refine ((local_chain .sum (c.moved ts).deeper).bind (g := closeParens)
        fun e d hd => local_closeParens e d).cons fun us => ?_
      exact primary_pair_of_lparen rfl ht hlt
    · refine (local_error (f := fun us => ⟨.tooDeep nestingLimit, (c.moved us).deeper⟩)).cons
        fun us => ?_
      exact primary_pair_of_limit rfl ht hlt
  termination_by (c.rest.length, 0)
  decreasing_by exact Prod.Lex.left _ _ (Cursor.length_moved_lt hc)

end

end OneUnknown.Grammar
