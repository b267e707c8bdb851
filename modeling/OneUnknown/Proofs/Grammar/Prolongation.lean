/-
  Incomplete and wrong tokens: what becomes of a refusal when more tokens come behind.

  * `outlook_chain` and its companions follow the recursion of the reader; `Outlook.parens` counts
    the parentheses that are still open.
  * `ofTokens_cases`: tokens are incomplete, end as a side may end, or are hopeless.
-/
import OneUnknown.Proofs.Grammar.Limit
import OneUnknown.Proofs.Grammar.AtomOutlook

namespace OneUnknown

namespace Grammar

/-! ## Outlooks of the parts -/

theorem Tier.asksOperand_of_op? {tier : Tier} {k : Kind} {op : Op} (h : tier.op? k = some op) :
    k.asksOperand = true := by
  cases tier <;> cases k <;> first | rfl | cases h

/-- **A parenthesis** asks for one more closing parenthesis than what is in it. -/
theorem Outlook.parens {t : Token} {ts : List Token} {x : List Token → Except Fault (Expr × Cursor)}
    (h : Outlook ts x) (ht : t.kind = .lparen) :
    Outlook (t :: ts) fun us => x us >>= closeParens := by
  have hasks : AsksOperand [t] := asksOperand_singleton (by rw [ht]; rfl)
  have hiff : AsksOperand ([t] ++ ts) ↔ AsksOperand ts := asksOperand_append_iff (.inr hasks)
  cases h with
  | @read e d hx hends hext =>
    cases hd : d.rest with
    | nil =>
      have hx' : x [] >>= closeParens = .error ⟨.unmatchedParenthesis, d⟩ := by
        rw [hx]
        exact closeParens_of_nil hd
      rw [hd] at hends
      have hends' : Ends ([t] ++ ts) [] := hends.append
      exact .closed hx' .unmatched hends'.not_asksOperand
    | cons u vs =>
      have hext' : ∀ us, x us >>= closeParens = closeParens (e, d.followedBy us) := by
        intro us
        rw [hext (by rw [hd]; nofun) us]
        rfl
      have hcons := fun us => closeParens_of_cons (e := e) (Cursor.followedBy_of_cons hd us)
      by_cases hu : u.kind = .rparen
      · have hread : ∀ us, x us >>= closeParens =
            .ok (e, ((d.moved vs).ascend).followedBy us) := by
          intro us
          rw [hext', hcons, if_pos hu]
          rfl
        obtain ⟨ws, hws, -⟩ := hends
        refine .of_ok hread ?_
        rw [hws, hd, ← List.cons_append]
        exact ends_cons (by rw [hu]; rfl)
      · have hread : ∀ us, x us >>= closeParens =
            .error ⟨.unmatchedParenthesis, d.followedBy us⟩ := by
          intro us
          rw [hext', hcons, if_neg hu]
        exact .of_error (by nofun) fun us => ⟨_, hread us⟩
  | @awaiting fault n hx he hts hcompl =>
    have hx' : x [] >>= closeParens = .error fault := by rw [hx]; rfl
    refine .awaiting (n := n + 1) hx' he (hiff.2 hts) ?_
    intro l ps us hl hps hn hus
    -- the last closing parenthesis is the one of this parenthesis
    obtain ⟨qs, p, rfl⟩ := (List.eq_nil_or_concat' ps).resolve_left fun h0 => by
      rw [h0] at hn
      cases hn
    have hp : p.kind = .rparen := hps p (List.mem_append_right _ (List.mem_singleton_self p))
    have hqs : ∀ q ∈ qs, q.kind = .rparen := fun q hq => hps q (List.mem_append_left _ hq)
    have hlen : qs.length = n := by
      rw [List.length_append] at hn
      exact Nat.succ.inj hn
    have hclosing : Closing (p :: us) := stops_cons_iff.2 (by rw [hp]; rfl)
    obtain ⟨e, d, hread, hd⟩ := hcompl l qs (p :: us) hl hqs hlen hclosing
    refine ⟨e, (d.moved us).ascend, ?_, rfl⟩
    rw [List.append_assoc, List.singleton_append, hread]
    exact (closeParens_of_cons hd).trans (if_pos hp)
  | @closed fault hx he hts =>
    have hx' : x [] >>= closeParens = .error fault := by rw [hx]; rfl
    exact .closed hx' he fun h => hts (hiff.1 h)
  | @final fault hx he herr =>
    have hx' : x [] >>= closeParens = .error fault := by rw [hx]; rfl
    refine .final hx' he fun us => ?_
    obtain ⟨fault', hf⟩ := herr us
    exact ⟨fault', by rw [hf]; rfl⟩

theorem Cursor.exists_sign {c : Cursor} (hne : c.rest ≠ []) : ∃ ws,
    c.rest = ws ++ c.sign.next.rest ∧ (c.sign.next.rest ≠ [] ∨ AsksOperand ws) ∧
    ∀ us, (c.followedBy us).sign.value = c.sign.value ∧
      (c.followedBy us).sign.next = c.sign.next.followedBy us := by
  obtain ⟨t, ts, hc⟩ := List.exists_cons_of_ne_nil hne
  cases hop : Tier.sum.op? t.kind with
  | none =>
    have hstop : ∀ us, Stops Tier.sum.isOperator (t :: us) := by
      intro us
      rw [stops_cons_iff, Tier.isOperator, hop]
      rfl
    rw [sign_of_stops (hc ▸ hstop ts)]
    refine ⟨[], rfl, .inl hne, fun us => ?_⟩
    rw [sign_of_stops (followedBy_of_cons hc us ▸ hstop _)]
    exact ⟨rfl, rfl⟩
  | some op =>
    obtain ⟨hv, hn⟩ := sign_of_operator hc hop
    rw [hv, hn]
    have hasks : AsksOperand [t] := asksOperand_singleton (Tier.asksOperand_of_op? hop)
    refine ⟨[t], hc, .inr hasks, fun us => ?_⟩
    exact sign_of_operator (followedBy_of_cons hc us) hop

theorem Tier.stops_of_closing {tier : Tier} {us : List Token} (h : Closing us) :
    Stops tier.isOperator us :=
  h.mono fun k hk => by cases tier <;> cases k <;> first | rfl | cases hk

mutual

/-- **What reading a chain says of more tokens behind.** -/
theorem outlook_chain (tier : Tier) (c : Cursor) :
    Outlook c.rest fun us => (chain tier (c.followedBy us)).map Consumed.pair := by
  have hchain := (outlook_operand tier c).bind
    (g := fun l => (links tier c.depth l.1 l.2).map Passed.pair) [] (.inr asksOperand_nil) ?_ ?_
  · have hx : ∀ us, (chain tier (c.followedBy us)).map Consumed.pair = _ :=
      fun us => chain_pair tier (c.followedBy us)
    simp only [hx]
    exact hchain
  · intro l d hd
    exact ⟨l, d.backTo c.depth, links_pair_of_stops (Tier.stops_of_closing hd), rfl⟩
  · intro l d hends _
    exact outlook_links hends
  termination_by (c.rest.length, tier.rank + 1)
  decreasing_by
    · exact Prod.Lex.right _ (Nat.lt_succ_self _)
    · exact Prod.Lex.left _ _ hends.length_lt

theorem outlook_operand (tier : Tier) (c : Cursor) :
    Outlook c.rest fun us => (operand tier (c.followedBy us)).map Consumed.pair := by
  cases tier with
  | sum => simpa only [operand] using outlook_chain .product c
  | product => simpa only [operand] using outlook_factor c
  termination_by (c.rest.length, tier.rank)
  decreasing_by
    · exact Prod.Lex.right _ (by decide)
    · exact Prod.Lex.right _ (by decide)

/-- Between `ts` and what is left of them at `c` stands what the links go on from. -/
theorem outlook_links {tier : Tier} {base : Nat} {l : Expr} {ts : List Token} {c : Cursor}
    (h : Ends ts c.rest) :
    Outlook ts fun us => (links tier base l (c.followedBy us)).map Passed.pair := by
  cases ho : c.operator? tier with
  | none =>
    have hstop : Stops tier.isOperator c.rest := Cursor.operator?_eq_none_iff.1 ho
    refine .read (a := l) (d := c.backTo base) ?_ h fun hne us => ?_
    · rw [Cursor.followedBy_nil]
      exact links_pair_of_stops hstop
    · exact links_pair_of_stops (hstop.append hne us)
  | some o =>
    obtain ⟨t, vs, hc, hop, -⟩ := Cursor.operator?_eq_some_iff.1 ho
    have hcons := Cursor.followedBy_of_cons hc
    by_cases hlt : c.depth < nestingLimit
    · have hlinks : ∀ us, (links tier base l (c.followedBy us)).map Passed.pair =
          (operand tier ((c.moved vs).deeper.followedBy us)).map Consumed.pair >>= fun r =>
            (links tier base (.bin o.value l r.1) r.2).map Passed.pair :=
        fun us => links_pair_of_cons (hcons us) hop hlt
      obtain ⟨ws, hts, -⟩ := h
      have hasks : AsksOperand (ws ++ [t]) :=
        asksOperand_concat_iff.2 (Tier.asksOperand_of_op? hop)
      have hts' : ts = ws ++ [t] ++ vs := by rw [hts, hc, List.append_assoc]; rfl
      simp only [hlinks, hts']
      refine (outlook_operand tier (c.moved vs).deeper).bind (ws ++ [t]) (.inr hasks) ?_ ?_
      · intro r d hd
        exact ⟨_, d.backTo base, links_pair_of_stops (Tier.stops_of_closing hd), rfl⟩
      · intro r d hends _
        show Outlook _ fun us =>
          (links tier base (.bin o.value l r) (d.followedBy us)).map Passed.pair
        exact outlook_links hends.append
    · refine .of_error (e := .tooDeep nestingLimit) (by nofun) fun us => Refuses.map ?_ _
      exact refuses_links (hcons us) hop fun hlt' => absurd hlt' hlt
  termination_by (c.rest.length, 0)
  decreasing_by
    · exact Prod.Lex.left _ _ (Cursor.length_moved_lt hc)
    · exact Prod.Lex.left _ _ (hends.length_lt.trans (Cursor.length_moved_lt hc))

theorem outlook_factor (c : Cursor) :
    Outlook c.rest fun us => (factor (c.followedBy us)).map Consumed.pair := by
  by_cases hne : c.rest = []
  · refine outlook_of_nil hne fun us hus => ?_
    have hrest : (c.followedBy us).rest = us := by rw [Cursor.followedBy, hne, List.nil_append]
    rw [factor_pair, Cursor.sign_of_stops (hrest.symm ▸ hus.stops rfl),
      primary_of_stops (hrest.symm ▸ hus.stops rfl)]
    cases leaf (c.followedBy us) <;> rfl
  · obtain ⟨ws, hws, hasks, hsign⟩ := Cursor.exists_sign hne
    have hmap := (outlook_primary c.sign.next).map ws hasks fun e =>
      if c.sign.value then e.negate else e
    have hfactor : ∀ us, (factor (c.followedBy us)).map Consumed.pair =
        (primary (c.sign.next.followedBy us)).map Consumed.pair >>= fun p =>
          .ok (if c.sign.value then p.1.negate else p.1, p.2) := by
      intro us
      rw [factor_pair, (hsign us).1, (hsign us).2]
    rw [← hws] at hmap
    simp only [hfactor]
    exact hmap
  termination_by (c.rest.length, 1)
  decreasing_by exact Prod.Lex.right' _ c.sign.noLonger (by decide)

theorem outlook_primary (c : Cursor) :
    Outlook c.rest fun us => (primary (c.followedBy us)).map Consumed.pair := by
  cases hc : c.rest with
  | nil =>
    rw [← hc]
    refine outlook_of_nil hc fun us hus => ?_
    have hrest : (c.followedBy us).rest = us := by rw [Cursor.followedBy, hc, List.nil_append]
    rw [primary_of_stops (hrest.symm ▸ hus.stops rfl)]
  | cons t ts =>
    have hcons := Cursor.followedBy_of_cons hc
    by_cases ht : t.kind = .lparen
    · by_cases hlt : c.depth < nestingLimit
      · have hprimary : ∀ us, (primary (c.followedBy us)).map Consumed.pair =
            (chain .sum ((c.moved ts).deeper.followedBy us)).map Consumed.pair >>= closeParens :=
          fun us => primary_pair_of_lparen (hcons us) ht hlt
        simp only [hprimary]
        exact (outlook_chain .sum (c.moved ts).deeper).parens ht
      · exact .of_error (e := .tooDeep nestingLimit) (by nofun) fun us =>
          (refuses_primary (hcons us) ht hlt).map _
    · have hleaf : ∀ us, primary (c.followedBy us) = leaf (c.followedBy us) := fun us =>
        primary_of_stops (hcons us ▸ stops_cons_iff.2 (decide_eq_false ht))
      simp only [hleaf, ← hc]
      exact outlook_leaf (by rw [hc]; nofun)
  termination_by (c.rest.length, 0)
  decreasing_by exact Prod.Lex.left _ _ (Cursor.length_moved_lt hc)

end

end Grammar

/-! ## Incomplete and wrong tokens -/

/-- Errors in what stands there, not in what is missing. -/
inductive Error.Lasting : Error → Prop
  | token {t : Token} : Lasting (.unexpectedToken t)
  | name {letters : String} : Lasting (.invalidName letters)
  | depth {limit : Nat} : Lasting (.tooDeep limit)

open Grammar

theorem Expr.ofTokens_pair (ts : List Token) : Expr.ofTokens ts =
    match (chain .sum (Cursor.start ts)).map Consumed.pair with
    | .error fault => .error fault.error
    | .ok (e, d) =>
      match d.rest with
      | [] => .ok e
      | t :: _ => .error (.unexpectedToken t) := by
  rw [Expr.ofTokens]
  cases chain .sum (Cursor.start ts) <;> rfl

section
variable {ts : List Token}

theorem Expr.ofTokens_of_chain {e : Expr} {d : Cursor}
    (h : (chain .sum (Cursor.start ts)).map Consumed.pair = .ok (e, d)) :
    Expr.ofTokens ts =
      match d.rest with
      | [] => .ok e
      | t :: _ => .error (.unexpectedToken t) := by
  rw [Expr.ofTokens_pair, h]

theorem Expr.ofTokens_of_fault {fault : Fault}
    (h : (chain .sum (Cursor.start ts)).map Consumed.pair = .error fault) :
    Expr.ofTokens ts = .error fault.error := by
  rw [Expr.ofTokens_pair, h]

end

/-- A letter and some closing parentheses behind the tokens make them a side. -/
def Completable (ts : List Token) : Prop :=
  ∃ l ps, l.kind = .letter ∧ (∀ p ∈ ps, p.kind = .rparen) ∧
    ∃ e, Expr.ofTokens (ts ++ l :: ps) = .ok e

/-- Whatever comes behind the tokens, they are no side. -/
def Hopeless (ts : List Token) : Prop :=
  ∀ us, ∃ err, Expr.ofTokens (ts ++ us) = .error err

theorem Hopeless.not_completable {ts : List Token} (h : Hopeless ts) : ¬ Completable ts := by
  rintro ⟨l, ps, -, -, e, he⟩
  obtain ⟨err, herr⟩ := h (l :: ps)
  rw [he] at herr
  cases herr

/-- Tokens are incomplete, or they end as a side may end, or they are hopeless. -/
theorem ofTokens_cases (ts : List Token) :
    (Expr.ofTokens ts = .error .unexpectedEnd ∧ AsksOperand ts ∧ Completable ts) ∨
    (¬ AsksOperand ts ∧ ∀ err, Expr.ofTokens ts = .error err → AtEnd err) ∨
    (Expr.ofTokens ts ≠ .error .unexpectedEnd ∧ Hopeless ts) := by
  have h : Outlook ts fun us => (chain .sum (Cursor.start (ts ++ us))).map Consumed.pair :=
    outlook_chain .sum (Cursor.start ts)
  have hself : Cursor.start (ts ++ []) = Cursor.start ts := by rw [List.append_nil]
  cases h with
  | @read e d hx hends hext =>
    rw [hself] at hx
    cases hd : d.rest with
    | nil =>
      have hok : Expr.ofTokens ts = .ok e := by rw [Expr.ofTokens_of_chain hx, hd]
      rw [hd] at hends
      exact .inr (.inl ⟨hends.not_asksOperand, fun err herr => by rw [hok] at herr; cases herr⟩)
    | cons t vs =>
      -- the token left over remains left over
      have hend : ∀ us, Expr.ofTokens (ts ++ us) = .error (.unexpectedToken t) := by
        intro us
        rw [Expr.ofTokens_of_chain (hext (by rw [hd]; nofun) us), Cursor.followedBy_of_cons hd]
      refine .inr (.inr ⟨?_, fun us => ⟨_, hend us⟩⟩)
      rw [← List.append_nil ts, hend]
      nofun
  | @awaiting fault n hx he hasks hcompl =>
    rw [hself] at hx
    have hps : ∀ p ∈ List.replicate n (⟨.rparen, ')'⟩ : Token), p.kind = .rparen := by
      intro p hp
      rw [List.eq_of_mem_replicate hp]
    obtain ⟨e, d, hread, hd⟩ :=
      hcompl ⟨.letter, 'x'⟩ _ [] rfl hps List.length_replicate stops_nil
    rw [List.append_nil] at hread
    have hok : Expr.ofTokens (ts ++ ⟨.letter, 'x'⟩ :: List.replicate n ⟨.rparen, ')'⟩) = .ok e := by
      rw [Expr.ofTokens_of_chain hread, hd]
    exact .inl ⟨he ▸ Expr.ofTokens_of_fault hx, hasks, ⟨.letter, 'x'⟩, _, rfl, hps, e, hok⟩
  | @closed fault hx he hasks =>
    rw [hself] at hx
    refine .inr (.inl ⟨hasks, fun err herr => ?_⟩)
    rw [Expr.ofTokens_of_fault hx] at herr
    exact Except.error.inj herr ▸ he
  | @final fault hx he herr =>
    rw [hself] at hx
    refine .inr (.inr ⟨?_, fun us => ?_⟩)
    · rw [Expr.ofTokens_of_fault hx]
      exact fun h => he (Except.error.inj h)
    · obtain ⟨fault', hf⟩ := herr us
      exact ⟨_, Expr.ofTokens_of_fault hf⟩

/-- **Incomplete and wrong tokens.**  Tokens end too soon iff an operand is due behind them and a
    letter with some closing parentheses completes them.  Where an error lies in what stands
    there, nothing behind it helps. -/
theorem Expr.ofTokens_prolonged (ts : List Token) :
    (Expr.ofTokens ts = .error .unexpectedEnd ↔ AsksOperand ts ∧ Completable ts) ∧
    ∀ err, err.Lasting → Expr.ofTokens ts = .error err → Hopeless ts := by
  rcases ofTokens_cases ts with ⟨hend, hasks⟩ | ⟨hasks, herr⟩ | ⟨hend, hwrong⟩
  · refine ⟨iff_of_true hend hasks, fun err hlast h => ?_⟩
    rw [hend] at h
    cases h
    cases hlast
  · refine ⟨iff_of_false ?_ fun h => hasks h.1, fun err hlast h => ?_⟩
    · intro h
      cases herr _ h
    · cases herr _ h <;> cases hlast
  · exact ⟨iff_of_false hend fun h => hwrong.not_completable h.2, fun _ _ _ => hwrong⟩

/-- `-x*(2-` may be completed, and `-x*(2-y))` may not. -/
theorem Expr.ofTokens_prolonged_signedProduct :
    Expr.ofTokens (signedProduct.take 6) = .error .unexpectedEnd ∧
    Expr.ofTokens (signedProduct ++ [⟨.rparen, ')'⟩]) =
      .error (.unexpectedToken ⟨.rparen, ')'⟩) ∧
    Hopeless (signedProduct ++ [⟨.rparen, ')'⟩]) := by
  have hp : ∀ t ∈ signedProduct, t.Proper := by decide
  have hok := Expr.ofTokens_of_derives derives_signedProduct hp
  have hwrong : Expr.ofTokens (signedProduct ++ [⟨.rparen, ')'⟩]) =
      .error (.unexpectedToken ⟨.rparen, ')'⟩) := by
    have hc : (Cursor.start (signedProduct ++ [⟨.rparen, ')'⟩])).rest =
        signedProduct ++ [⟨.rparen, ')'⟩] := rfl
    have hstop : Stops Tier.sum.goesOn [⟨.rparen, ')'⟩] ∧
        Stops Tier.sum.isOperator [⟨.rparen, ')'⟩] := stops_rparen rfl
    have hread := readsTo_of_derives derives_signedProduct hp hc hstop.1 (by decide)
    obtain ⟨r, hr, -, hrest, -⟩ := hread.close hstop.2
    rw [Expr.ofTokens, hr]
    simp only [hrest]
  refine ⟨(ofTokens_prolonged _).1.2 ⟨?_, ?_⟩, hwrong, ?_⟩
  · intro t ht
    cases ht
    rfl
  · exact ⟨⟨.letter, 'y'⟩, [⟨.rparen, ')'⟩], rfl, by decide, _, hok⟩
  · exact (ofTokens_prolonged _).2 _ .token hwrong

end OneUnknown
