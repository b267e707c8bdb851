/-
  The grammar is unambiguous, whatever its scale: the tokens determine the tree and the levels it
  needs.

  * `Derives.eq_of_atom`: atoms that start at the same place, and that no atom follows, are the
    same, since a run of digits ends where the next kind starts (`eq_of_stops`).
  * `exists_prefix`: a chain starts with a chain of any smaller number of operations, behind which
    an operation of its tier follows.
  * `Sole k ts e n`: no other `k` starts where the tokens `ts` do, unless it could go on; by
    induction on one derivation (`sole_of_derives`).
-/
import OneUnknown.Proofs.Grammar.Completeness

namespace OneUnknown.Grammar

variable {scale : Nat → Nat}

/-! ## Atoms -/

/-- There is one place to cut between the tokens of the kinds in `p` and what stops them. -/
theorem eq_of_stops {p : Kind → Bool} {ts ts' us us' : List Token} (h : ∀ t ∈ ts, p t.kind = true)
    (h' : ∀ t ∈ ts', p t.kind = true) (hu : Stops p us) (hu' : Stops p us')
    (heq : ts ++ us = ts' ++ us') : ts = ts' ∧ us = us' := by
  induction ts generalizing ts' with
  | nil =>
    cases ts' with
    | nil => exact ⟨rfl, heq⟩
    | cons t ts' =>
      rw [List.nil_append, List.cons_append] at heq
      rw [heq, stops_cons_iff, h' t List.mem_cons_self] at hu
      cases hu
  | cons t ts ih =>
    cases ts' with
    | nil =>
      rw [List.nil_append, List.cons_append] at heq
      rw [← heq, stops_cons_iff, h t List.mem_cons_self] at hu'
      cases hu'
    | cons t' ts' =>
      obtain ⟨rfl, htail⟩ := List.cons.inj heq
      obtain ⟨rfl, hus⟩ := ih (fun u hu => h u (List.mem_cons_of_mem t hu))
        (fun u hu => h' u (List.mem_cons_of_mem t hu)) htail
      exact ⟨rfl, hus⟩

theorem Number.isNumeral_of_mem {ts : List Token} {q : Rat} (h : Number scale ts q) :
    ∀ t ∈ ts, isNumeral t.kind = true := by
  have hdigit : ∀ {t : Token}, t.kind = .digit → isNumeral t.kind = true := by
    intro t ht
    rw [ht]
    rfl
  cases h with
  | whole _ hd => exact fun t ht => hdigit (hd t ht)
  | pointed hd hp _ hf =>
    intro t ht
    rcases List.mem_append.1 ht with ht | ht
    · exact hdigit (hd t ht)
    · rcases List.mem_cons.1 ht with rfl | ht
      · rw [hp]; rfl
      · exact hdigit (hf t ht)

/-- The tokens of a number determine its value. -/
theorem Number.value_unique {ts : List Token} {q q' : Rat} (h : Number scale ts q)
    (h' : Number scale ts q') : q = q' := by
  have hpoint : ∀ {p : Token}, p.kind = .dot → ¬ p.kind = .digit := by
    rintro p hp hd
    rw [hp] at hd
    cases hd
  cases h with
  | whole _ hd =>
    generalize hts : ts = us at h'
    cases h' with
    | whole _ _ => rfl
    | pointed _ hp _ _ =>
      refine absurd (hd _ ?_) (hpoint hp)
      rw [hts]
      exact List.mem_append_right _ List.mem_cons_self
  | @pointed ds p fs hd hp _ _ =>
    generalize hts : ds ++ p :: fs = us at h'
    cases h' with
    | whole _ hd' =>
      refine absurd (hd' _ ?_) (hpoint hp)
      rw [← hts]
      exact List.mem_append_right _ List.mem_cons_self
    | @pointed ds' p' fs' hd' hp' _ _ =>
      have hstop : ∀ {p : Token} {fs}, p.kind = .dot →
          Stops (decide <| · = .digit) (p :: fs) := by
        intro p fs hp
        rw [stops_cons_iff, hp]
        rfl
      obtain ⟨rfl, htail⟩ := eq_of_stops (p := (decide <| · = .digit))
        (fun t ht => decide_eq_true (hd t ht)) (fun t ht => decide_eq_true (hd' t ht))
        (hstop hp) (hstop hp') hts
      rw [(List.cons.inj htail).2]

/-- Numbers at the same place, behind which no number goes on, are the same. -/
theorem Number.eq_of_append {ts ts' us us' : List Token} {q q' : Rat} (h : Number scale ts q)
    (h' : Number scale ts' q') (hu : Stops isNumeral us) (hu' : Stops isNumeral us')
    (heq : ts ++ us = ts' ++ us') : ts = ts' ∧ us = us' ∧ q = q' := by
  obtain ⟨rfl, rfl⟩ := eq_of_stops h.isNumeral_of_mem h'.isNumeral_of_mem hu hu' heq
  exact ⟨rfl, rfl, h.value_unique h'⟩

/-- A number does not start with a letter. -/
theorem Number.ne_letter {ts us vs : List Token} {q : Rat} {t : Token} (h : Number scale ts q)
    (ht : t.kind = .letter) : ts ++ us ≠ t :: vs := by
  obtain ⟨u, rest, rfl, hu⟩ := h.exists_cons
  intro heq
  obtain ⟨rfl, -⟩ := List.cons.inj heq
  rw [ht] at hu
  cases hu

/-- **Atoms at the same place, behind which no atom follows, are the same.** -/
theorem Derives.eq_of_atom {ts ts' us us' : List Token} {e e' : Expr} {n n' : Nat}
    (h : Derives scale .atom ts e n) (h' : Derives scale .atom ts' e' n')
    (heq : ts ++ us = ts' ++ us') (hu : Stops Kind.startsAtom us)
    (hu' : Stops Kind.startsAtom us') : ts = ts' ∧ e = e' ∧ n = n' := by
  have numeral : ∀ {vs}, Stops Kind.startsAtom vs → Stops isNumeral vs :=
    fun hv => hv.mono fun _ => startsAtom_of_isNumeral
  have letter : ∀ {t : Token} {vs}, t.kind = .letter → Stops isNumeral (t :: vs) := by
    intro t vs ht
    rw [stops_cons_iff, ht]
    rfl
  -- behind a number without a letter no letter comes
  have bare : ∀ {t : Token} {vs vs'}, t.kind = .letter → Stops Kind.startsAtom vs →
      vs ≠ t :: vs' := by
    rintro t vs vs' ht hv rfl
    rw [stops_cons_iff, ht] at hv
    cases hv
  cases h with
  | number hq =>
    cases h' with
    | number hq' =>
      obtain ⟨rfl, -, rfl⟩ := hq.eq_of_append hq' (numeral hu) (numeral hu') heq
      exact ⟨rfl, rfl, rfl⟩
    | scaled hq' ht' =>
      rw [List.append_assoc] at heq
      exact absurd (hq.eq_of_append hq' (numeral hu) (letter ht') heq).2.1 (bare ht' hu)
    | letter ht' => exact absurd heq (hq.ne_letter ht')
  | scaled hq ht =>
    rw [List.append_assoc] at heq
    cases h' with
    | number hq' =>
      exact absurd (hq.eq_of_append hq' (letter ht) (numeral hu') heq).2.1.symm (bare ht hu')
    | scaled hq' ht' =>
      rw [List.append_assoc] at heq
      obtain ⟨rfl, htail, rfl⟩ := hq.eq_of_append hq' (letter ht) (letter ht') heq
      obtain ⟨rfl, -⟩ := List.cons.inj htail
      exact ⟨rfl, rfl, rfl⟩
    | letter ht' => exact absurd heq (hq.ne_letter ht')
  | letter ht =>
    cases h' with
    | number hq' => exact absurd heq.symm (hq'.ne_letter ht)
    | scaled hq' ht' =>
      rw [List.append_assoc] at heq
      exact absurd heq.symm (hq'.ne_letter ht)
    | letter ht' =>
      obtain ⟨rfl, -⟩ := List.cons.inj heq
      exact ⟨rfl, rfl, rfl⟩

/-! ## Chains -/

theorem not_stops_operator {tier : Tier} {t : Token} {ts : List Token} {op : Op}
    (h : tier.op? t.kind = some op) : ¬ Stops tier.isOperator (t :: ts) := by
  rw [stops_cons_iff, Tier.isOperator, h]
  exact Bool.false_ne_true.symm

/-- A chain starts with a shorter chain and an operation. -/
theorem Derives.exists_prefix {tier : Tier} {k : Nat} {ts : List Token} {e : Expr} {n : Nat}
    (h : Derives scale (.chain tier k) ts e n) {j : Nat} (hj : j < k) :
    ∃ ts' us e' n' t op, Derives scale (.chain tier j) ts' e' n' ∧ ts = ts' ++ t :: us ∧
      tier.op? t.kind = some op := by
  induction k generalizing ts e n with
  | zero => omega
  | succ k ih =>
    cases h with
    | @link _ _ ts t us op l r n m hl hop hr =>
      by_cases hjk : j = k
      · subst hjk
        exact ⟨ts, us, l, n, t, op, hl, rfl, hop⟩
      · obtain ⟨ts', vs, e', n', t', op', hd, rfl, hop'⟩ := ih hl (by omega)
        exact ⟨ts', vs ++ t :: us, e', n', t', op', hd, List.append_assoc .., hop'⟩

/-- Whatever `k` starts at the same place, and ends where it could not go on, is this one. -/
def Sole (scale : Nat → Nat) (k : Construct) (ts : List Token) (e : Expr) (n : Nat) : Prop :=
  match k with
  | .chain tier i => ∀ {j ts' e' n' us us'}, Derives scale (.chain tier j) ts' e' n' →
      ts ++ us = ts' ++ us' → Stops tier.goesOn us → Stops tier.goesOn us' →
      (j = i → ts = ts' ∧ e = e' ∧ n = n') ∧ (j < i → ¬ Stops tier.isOperator us')
  | k => ∀ {ts' e' n' us us'}, Derives scale k ts' e' n' →
      ts ++ us = ts' ++ us' → Stops k.goesOn us → Stops k.goesOn us' →
      ts = ts' ∧ e = e' ∧ n = n'

/-- Two chains that no operation of their tier follows are the same. -/
theorem Sole.eq_of_chain {tier : Tier} {i j : Nat} {ts ts' us us' : List Token} {e e' : Expr}
    {n n' : Nat} (h : Sole scale (.chain tier i) ts e n)
    (h' : Derives scale (.chain tier j) ts' e' n') (heq : ts ++ us = ts' ++ us')
    (hu : Stops tier.goesOn us) (hu' : Stops tier.goesOn us') (ho : Stops tier.isOperator us)
    (ho' : Stops tier.isOperator us') : j = i ∧ ts = ts' ∧ e = e' ∧ n = n' := by
  rcases Nat.lt_trichotomy j i with hlt | heq' | hgt
  · exact absurd ho' ((h h' heq hu hu').2 hlt)
  · exact ⟨heq', (h h' heq hu hu').1 heq'⟩
  · -- the longer chain starts with one as long as the other, hence with the other
    obtain ⟨ps, vs, e₀, n₀, t, op, hd, rfl, hop⟩ := h'.exists_prefix hgt
    rw [List.append_assoc, List.cons_append] at heq
    obtain ⟨hts, -⟩ := (h hd heq hu (stops_operator hop)).1 rfl
    rw [hts, List.append_cancel_left_eq] at heq
    rw [heq] at ho
    exact absurd ho (not_stops_operator hop)

/-! ## One case for each constructor -/

/-- An atom does not start with a parenthesis. -/
theorem Derives.atom_ne_lparen {ts us vs : List Token} {e : Expr} {n : Nat} {o : Token}
    (h : Derives scale .atom ts e n) (ho : o.kind = .lparen) : ts ++ us ≠ o :: vs := by
  obtain ⟨t, rest, rfl, ht⟩ := h.exists_cons_of_atom
  intro heq
  rw [List.cons_append, List.cons.injEq] at heq
  rw [heq.1, ho] at ht
  cases ht

/-- What has no sign does not start with one. -/
theorem Derives.primary_ne_sign {ts us vs : List Token} {e : Expr} {n : Nat} {t : Token} {op : Op}
    (h : Derives scale .primary ts e n) (hop : Tier.sum.op? t.kind = some op) :
    ts ++ us ≠ t :: vs := by
  intro heq
  have hs : Stops Tier.sum.isOperator (ts ++ us) := h.stops_of_primary
  rw [heq] at hs
  exact not_stops_operator hop hs

theorem Sole.atom {ts : List Token} {e : Expr} {n : Nat} (hd : Derives scale .atom ts e n)
    (h : Sole scale .atom ts e n) : Sole scale .primary ts e n := by
  intro ts' e' n' us us' h' heq hu hu'
  cases h' with
  | atom hd' => exact h hd' heq hu hu'
  | parens ho hc hcl =>
    rw [List.append_assoc, List.cons_append] at heq
    exact absurd heq (hd.atom_ne_lparen ho)

theorem Sole.parens {k : Nat} {o c : Token} {ts : List Token} {e : Expr} {n : Nat}
    (ho : o.kind = .lparen) (hc : c.kind = .rparen) (h : Sole scale (.chain .sum k) ts e n) :
    Sole scale .primary (o :: ts ++ [c]) e (n + 1) := by
  intro ts' e' n' us us' h' heq hu hu'
  simp only [List.cons_append, List.append_assoc, List.nil_append] at heq
  cases h' with
  | atom hd' => exact absurd heq.symm (hd'.atom_ne_lparen ho)
  | @parens k' o' ts' c' e' n' ho' hd' hc' =>
    simp only [List.cons_append, List.append_assoc, List.nil_append, List.cons.injEq] at heq
    obtain ⟨rfl, heq⟩ := heq
    obtain ⟨hg, hs⟩ := stops_rparen hc
    obtain ⟨hg', hs'⟩ := stops_rparen hc'
    obtain ⟨-, hts, he, hn⟩ := h.eq_of_chain hd' heq hg hg' hs hs'
    rw [hts, List.append_cancel_left_eq] at heq
    obtain ⟨rfl, -⟩ := List.cons.inj heq
    exact ⟨by rw [hts], he, by rw [hn]⟩

theorem Sole.unsigned {ts : List Token} {e : Expr} {n : Nat} (hd : Derives scale .primary ts e n)
    (h : Sole scale .primary ts e n) : Sole scale .factor ts e n := by
  intro ts' e' n' us us' h' heq hu hu'
  cases h' with
  | unsigned hd' => exact h hd' heq hu hu'
  | plus ht _ => exact absurd heq (hd.primary_ne_sign (Tier.sum_op?_plus ht))
  | minus ht _ => exact absurd heq (hd.primary_ne_sign (Tier.sum_op?_minus ht))

theorem Sole.signed {t : Token} {op : Op} {ts : List Token} {e : Expr} {n : Nat}
    (hop : Tier.sum.op? t.kind = some op) (h : Sole scale .primary ts e n) :
    Sole scale .factor (t :: ts) (if op = .sub then e.negate else e) n := by
  intro ts' e' n' us us' h' heq hu hu'
  cases h' with
  | unsigned hd' => exact absurd heq.symm (hd'.primary_ne_sign hop)
  | plus ht hd' =>
    obtain ⟨rfl, htail⟩ := List.cons.inj heq
    obtain ⟨rfl, rfl, rfl⟩ := h hd' htail hu hu'
    rw [ht] at hop
    cases hop
    exact ⟨rfl, rfl, rfl⟩
  | minus ht hd' =>
    obtain ⟨rfl, htail⟩ := List.cons.inj heq
    obtain ⟨rfl, rfl, rfl⟩ := h hd' htail hu hu'
    rw [ht] at hop
    cases hop
    exact ⟨rfl, rfl, rfl⟩

theorem Sole.product {k : Nat} {ts : List Token} {e : Expr} {n : Nat}
    (h : Sole scale (.chain .product k) ts e n) : Sole scale (.operand .sum) ts e n := by
  intro ts' e' n' us us' h' heq hu hu'
  obtain ⟨hg, hs⟩ := stops_sum_iff.1 hu
  obtain ⟨hg', hs'⟩ := stops_sum_iff.1 hu'
  cases h' with
  | product hd' => exact (h.eq_of_chain hd' heq hg hg' hs hs').2

theorem Sole.factor {ts : List Token} {e : Expr} {n : Nat} (h : Sole scale .factor ts e n) :
    Sole scale (.operand .product) ts e n := by
  intro ts' e' n' us us' h' heq hu hu'
  cases h' with
  | factor hd' => exact h hd' heq hu hu'

theorem Sole.single {tier : Tier} {ts : List Token} {e : Expr} {n : Nat}
    (h : Sole scale (.operand tier) ts e n) : Sole scale (.chain tier 0) ts e n := by
  intro j ts' e' n' us us' h' heq hu hu'
  refine ⟨?_, by omega⟩
  rintro rfl
  cases h' with
  | single hd' => exact h hd' heq hu hu'

theorem Sole.link {tier : Tier} {k : Nat} {ts us : List Token} {t : Token} {op : Op} {l r : Expr}
    {n m : Nat} (hl : Sole scale (.chain tier k) ts l n) (hop : tier.op? t.kind = some op)
    (hr : Sole scale (.operand tier) us r m) :
    Sole scale (.chain tier (k + 1)) (ts ++ t :: us) (.bin op l r) (max n (k + 1 + m)) := by
  intro j ts' e' n' vs vs' h' heq hu hu'
  rw [List.append_assoc, List.cons_append] at heq
  have hstop : Stops tier.goesOn (t :: (us ++ vs)) := stops_operator hop
  refine ⟨?_, ?_⟩
  · rintro rfl
    cases h' with
    | @link _ _ ts' t' us' op' l' r' n' m' hl' hop' hr' =>
      rw [List.append_assoc, List.cons_append] at heq
      obtain ⟨rfl, rfl, rfl⟩ := (hl hl' heq hstop (stops_operator hop')).1 rfl
      rw [List.append_cancel_left_eq, List.cons.injEq] at heq
      obtain ⟨rfl, heq⟩ := heq
      obtain ⟨rfl, rfl, rfl⟩ := hr hr' heq hu hu'
      rw [hop, Option.some.injEq] at hop'
      exact ⟨rfl, by rw [hop'], rfl⟩
  · intro hj
    have h₀ := hl h' heq hstop hu'
    rcases Nat.lt_or_eq_of_le (Nat.le_of_lt_succ hj) with hlt | hjk
    · exact h₀.2 hlt
    · obtain ⟨rfl, -⟩ := h₀.1 hjk
      rw [List.append_cancel_left_eq] at heq
      rw [← heq]
      exact not_stops_operator hop

/-- **A construct is the only one of its class at its place.** -/
theorem sole_of_derives {k : Construct} {ts : List Token} {e : Expr} {n : Nat}
    (h : Derives scale k ts e n) : Sole scale k ts e n := by
  induction h with
  | number hq => exact fun h' => (Derives.number hq).eq_of_atom h'
  | scaled hq ht => exact fun h' => (Derives.scaled hq ht).eq_of_atom h'
  | letter ht => exact fun h' => (Derives.letter ht).eq_of_atom h'
  | atom hd ih => exact ih.atom hd
  | parens ho _ hc ih => exact ih.parens ho hc
  | unsigned hd ih => exact ih.unsigned hd
  | plus ht _ ih => exact ih.signed (Tier.sum_op?_plus ht)
  | minus ht _ ih => exact ih.signed (Tier.sum_op?_minus ht)
  | product _ ih => exact ih.product
  | factor _ ih => exact ih.factor
  | single _ ih => exact ih.single
  | link _ hop _ ihl ihr => exact ihl.link hop ihr

/-- The tokens of a sum determine its tree and the levels it needs. -/
theorem Derives.sum_unique {i j : Nat} {ts : List Token} {e e' : Expr} {n n' : Nat}
    (h : Derives scale (.chain .sum i) ts e n) (h' : Derives scale (.chain .sum j) ts e' n') :
    i = j ∧ e = e' ∧ n = n' := by
  obtain ⟨hij, -, he, hn⟩ :=
    Sole.eq_of_chain (sole_of_derives h) h' rfl stops_nil stops_nil stops_nil stops_nil
  exact ⟨hij.symm, he, hn⟩

end OneUnknown.Grammar
