/-
  The reader is complete: what is derived within the limit is read, up to a token by which it
  would not go on.

  * `Construct.goesOn k`: the kinds of tokens that would prolong the last operand of a `k`.
  * `ReadsTo k c e us`: a `k` is read from `c` as `e` up to `us`.  A chain is not ended by that:
    reading the links behind it gives what reading the chain gives.
  * `readsTo_of_derives`: by induction on the derivation.
-/
import OneUnknown.Proofs.Grammar.Soundness

namespace OneUnknown.Grammar

/-! ## What a construct goes on with -/

/-- The kinds of tokens by which an operand of a tier would go on. -/
def Tier.goesOn : Tier → Kind → Bool
  | .product, k => k.startsAtom
  | .sum, k => k.startsAtom || Tier.product.isOperator k

/-- The kinds of tokens by which a construct would go on; of a chain, its last operand. -/
def Construct.goesOn : Construct → Kind → Bool
  | .chain tier _ => tier.goesOn
  | .operand tier => tier.goesOn
  | .factor | .primary | .atom => Kind.startsAtom

/-- An operation ends the operand before it. -/
theorem stops_operator {tier : Tier} {t : Token} {ts : List Token} {op : Op}
    (h : tier.op? t.kind = some op) : Stops tier.goesOn (t :: ts) := by
  rw [stops_cons_iff]
  cases tier <;> cases hk : t.kind <;> rw [hk] at h <;> first | rfl | cases h

theorem stops_rparen {p : Token} {ts : List Token} (h : p.kind = .rparen) :
    Stops Tier.sum.goesOn (p :: ts) ∧ Stops Tier.sum.isOperator (p :: ts) := by
  rw [stops_cons_iff, stops_cons_iff, h]
  exact ⟨rfl, rfl⟩

theorem stops_sum_iff {us : List Token} : Stops Tier.sum.goesOn us ↔
    Stops Tier.product.goesOn us ∧ Stops Tier.product.isOperator us := by
  cases us with
  | nil => simp [stops_nil]
  | cons u us => simp [stops_cons_iff, Tier.goesOn]

/-- Neither an atom nor a parenthesis starts with a sign. -/
theorem Derives.stops_of_primary {scale : Nat → Nat} {ts us : List Token} {e : Expr} {n : Nat}
    (h : Derives scale .primary ts e n) : Stops Tier.sum.isOperator (ts ++ us) := by
  cases h with
  | atom ha =>
    obtain ⟨t, us, rfl, ht⟩ := ha.exists_cons_of_atom
    rw [List.cons_append, stops_cons_iff]
    cases hk : t.kind <;> rw [hk] at ht <;> first | rfl | cases ht
  | parens ho _ _ =>
    rw [List.append_assoc, List.cons_append, stops_cons_iff, ho]
    rfl

/-! ## Reading a derivation -/

/-- The reading `x` gives `e`, stops before `us` and leaves as many levels open as it found. -/
def Yields {c : Cursor} (x : Except Fault (Consumed Expr c)) (e : Expr) (us : List Token) : Prop :=
  ∃ r, x = .ok r ∧ r.value = e ∧ r.next.rest = us ∧ r.next.depth = c.depth

/-- A `k` is read from `c` as `e`, up to `us`. -/
def ReadsTo (k : Construct) (c : Cursor) (e : Expr) (us : List Token) : Prop :=
  match k with
  | .chain tier i => ∃ d : Cursor, d.rest = us ∧ d.depth = c.depth + i ∧
      ∀ w, links tier c.depth e d = .ok w → ∃ hlt, chain tier c = .ok ⟨w.value, w.next, hlt⟩
  | .operand tier => Yields (operand tier c) e us
  | .factor => Yields (factor c) e us
  | .primary => Yields (primary c) e us
  | .atom => Yields (atom c) e us

theorem ReadsTo.close {tier : Tier} {i : Nat} {c : Cursor} {e : Expr} {us : List Token}
    (h : ReadsTo (.chain tier i) c e us) (hu : Stops tier.isOperator us) :
    Yields (chain tier c) e us := by
  obtain ⟨d, hrest, -, hd⟩ := h
  have ho : d.operator? tier = none := Cursor.operator?_eq_none_iff.2 (hrest ▸ hu)
  have hl : links tier c.depth e d = .ok ⟨e, d.backTo c.depth, Nat.le_refl _⟩ := by
    rw [links, ho]
  obtain ⟨hlt, hc⟩ := hd _ hl
  exact ⟨_, hc, rfl, hrest, rfl⟩

theorem ReadsTo.link {tier : Tier} {i : Nat} {c : Cursor} {l e : Expr} {t : Token} {op : Op}
    {ts us : List Token} (h : ReadsTo (.chain tier i) c l (t :: ts))
    (hop : tier.op? t.kind = some op) (hi : c.depth + i < nestingLimit)
    (hr : ∀ inner : Cursor, inner.rest = ts → inner.depth = c.depth + i + 1 →
      Yields (operand tier inner) e us) :
    ReadsTo (.chain tier (i + 1)) c (.bin op l e) us := by
  obtain ⟨d, hrest, hdepth, hd⟩ := h
  have hlt : (d.moved ts).rest.length < d.rest.length := Cursor.length_moved_lt hrest
  have hdesc : (d.moved ts).descend = .ok ⟨(d.moved ts).deeper, rfl⟩ :=
    Cursor.descend_eq_ok_iff.2 ⟨lt_of_eq_of_lt hdepth hi, rfl⟩
  have hid : (d.moved ts).deeper.depth = c.depth + i + 1 := congrArg (· + 1) hdepth
  obtain ⟨r, hright, rfl, hnext, hback⟩ := hr (d.moved ts).deeper rfl hid
  refine ⟨r.next, hnext, hback.trans hid, ?_⟩
  intro w hw
  have hle : w.next.rest.length ≤ d.rest.length :=
    Nat.le_trans w.noLonger (Nat.le_of_lt (Nat.lt_trans r.shorter hlt))
  have hl : links tier c.depth l d = .ok ⟨w.value, w.next, hle⟩ := by
    rw [links, Cursor.operator?_of_cons hrest hop]
    refine bind_eq_ok_iff.2 ⟨_, hdesc, bind_eq_ok_iff.2 ⟨_, hright, ?_⟩⟩
    exact bind_eq_ok_iff.2 ⟨_, hw, rfl⟩
  exact hd _ hl

theorem Yields.single {tier : Tier} {c : Cursor} {e : Expr} {us : List Token}
    (h : Yields (operand tier c) e us) : ReadsTo (.chain tier 0) c e us := by
  obtain ⟨r, hr, rfl, hrest, hdepth⟩ := h
  refine ⟨r.next, hrest, hdepth, ?_⟩
  intro w hw
  refine ⟨Nat.lt_of_le_of_lt w.noLonger r.shorter, ?_⟩
  rw [chain]
  exact bind_eq_ok_iff.2 ⟨_, hr, bind_eq_ok_iff.2 ⟨_, hw, rfl⟩⟩

theorem Yields.sign {c : Cursor} {e : Expr} {us : List Token}
    (h : Yields (primary c.sign.next) e us) (hd : c.sign.next.depth = c.depth) :
    Yields (factor c) (if c.sign.value then e.negate else e) us := by
  obtain ⟨r, hr, rfl, hrest, hdepth⟩ := h
  refine ⟨⟨_, r.next, Nat.lt_of_lt_of_le r.shorter c.sign.noLonger⟩, ?_, rfl, hrest, ?_⟩
  · rw [factor]
    exact bind_eq_ok_iff.2 ⟨_, hr, rfl⟩
  · exact hdepth.trans hd

theorem Yields.unsigned {c : Cursor} {e : Expr} {us : List Token} (h : Yields (primary c) e us)
    (hs : Stops Tier.sum.isOperator c.rest) : Yields (factor c) e us := by
  have hsign : c.sign = ⟨false, c, Nat.le_refl _⟩ := by
    rw [Cursor.sign, Cursor.operator?_eq_none_iff.2 hs]
  have hf : Yields (factor c) (if c.sign.value then e.negate else e) us :=
    Yields.sign (by rw [hsign]; exact h) (by rw [hsign])
  rw [hsign] at hf
  exact hf

theorem Yields.signed {c : Cursor} {t : Token} {op : Op} {e : Expr} {ts us : List Token}
    (h : Yields (primary (c.moved ts)) e us) (hc : c.rest = t :: ts)
    (hop : Tier.sum.op? t.kind = some op) :
    Yields (factor c) (if op = .sub then e.negate else e) us := by
  obtain ⟨hv, hnext⟩ := Cursor.sign_of_operator hc hop
  have hf : Yields (factor c) (if c.sign.value then e.negate else e) us :=
    Yields.sign (by rw [hnext]; exact h) (by rw [hnext]; rfl)
  rw [hv] at hf
  simpa only [decide_eq_true_eq] using hf

theorem yields_primary_of_atom {c : Cursor} {ts us : List Token} {e : Expr} {n : Nat}
    (h : Derives Decimal.tenTo .atom ts e n) (hc : c.rest = ts ++ us) (ha : Yields (atom c) e us) :
    Yields (primary c) e us := by
  obtain ⟨t, rest, rfl, ht⟩ := h.exists_cons_of_atom
  have hstop : Stops (decide <| · = .lparen) c.rest := by
    rw [hc, List.cons_append, stops_cons_iff, decide_eq_false_iff_not]
    rintro hk
    rw [hk] at ht
    cases ht
  have hp : primary c = atom c := by
    rw [primary, Cursor.token?_eq_none_iff.2 hstop]
    simp only [leaf, hc, List.cons_append, ht, if_true]
  rw [hp]
  exact ha

theorem Yields.parens {c : Cursor} {o cl : Token} {e : Expr} {ts us : List Token}
    (hc : c.rest = o :: ts) (ho : o.kind = .lparen) (hlt : c.depth < nestingLimit)
    (h : ∀ inner : Cursor, inner.rest = ts → inner.depth = c.depth + 1 →
      Yields (chain .sum inner) e (cl :: us)) (hcl : cl.kind = .rparen) :
    Yields (primary c) e us := by
  have hs : (c.moved ts).rest.length < c.rest.length := Cursor.length_moved_lt hc
  have hdesc : (c.moved ts).descend = .ok ⟨(c.moved ts).deeper, rfl⟩ :=
    Cursor.descend_eq_ok_iff.2 ⟨hlt, rfl⟩
  obtain ⟨body, hbody, rfl, hrest, hdepth⟩ := h (c.moved ts).deeper rfl rfl
  have hs' : (body.next.moved us).rest.length < body.next.rest.length :=
    Cursor.length_moved_lt hrest
  refine ⟨⟨body.value, (body.next.moved us).ascend, ?_⟩, ?_, rfl, rfl, ?_⟩
  · exact Nat.lt_trans hs' (Nat.lt_trans body.shorter hs)
  · rw [primary, Cursor.token?_of_cons hc ho]
    refine bind_eq_ok_iff.2 ⟨_, hdesc, bind_eq_ok_iff.2 ⟨_, hbody, ?_⟩⟩
    rw [Cursor.token?_of_cons hrest hcl]
    rfl
  · exact congrArg (· - 1) hdepth

/-- **What is derived within the limit is read.** -/
theorem readsTo_of_derives {k : Construct} {ts : List Token} {e : Expr} {n : Nat}
    (h : Derives Decimal.tenTo k ts e n) : ∀ {c : Cursor} {us : List Token},
      (∀ t ∈ ts, t.Proper) → c.rest = ts ++ us → Stops k.goesOn us →
      c.depth + n ≤ nestingLimit → ReadsTo k c e us := by
  have atoms : ∀ {ts e n}, Derives Decimal.tenTo .atom ts e n → ∀ {c : Cursor} {us},
      (∀ t ∈ ts, t.Proper) → c.rest = ts ++ us → Stops Kind.startsAtom us →
      Yields (atom c) e us := by
    intro ts e n h c us hp hc hu
    obtain ⟨-, hlt, ha⟩ := atom_complete h hp hc hu
    exact ⟨_, ha, rfl, rfl, rfl⟩
  induction h with
  | number hq => intro c us hp hc hu _; exact atoms (.number hq) hp hc hu
  | scaled hq ht => intro c us hp hc hu _; exact atoms (.scaled hq ht) hp hc hu
  | letter ht => intro c us hp hc hu _; exact atoms (.letter ht) hp hc hu
  | atom ha ih =>
    intro c us hp hc hu hn
    exact yields_primary_of_atom ha hc (ih hp hc hu hn)
  | @parens k o ts cl e n ho hd hcl ih =>
    intro c us hp hc hu hn
    rw [List.append_assoc] at hc
    refine Yields.parens hc ho (by omega) ?_ hcl
    intro inner hrest hdepth
    obtain ⟨hg, hs⟩ := stops_rparen hcl
    have hp' : ∀ t ∈ ts, t.Proper := by
      intro t ht
      exact hp t (List.mem_append_left _ (List.mem_cons_of_mem o ht))
    exact (ih hp' hrest hg (by omega)).close hs
  | unsigned hd ih =>
    intro c us hp hc hu hn
    exact (ih hp hc hu hn).unsigned (hc ▸ hd.stops_of_primary)
  | @plus t ts e n ht hd ih =>
    intro c us hp hc hu hn
    have hp' : ∀ t ∈ ts, t.Proper := fun u hu => hp u (List.mem_cons_of_mem t hu)
    have hf : Yields (primary (c.moved (ts ++ us))) e us := ih hp' rfl hu hn
    exact hf.signed hc (Tier.sum_op?_plus ht)
  | @minus t ts e n ht hd ih =>
    intro c us hp hc hu hn
    have hp' : ∀ t ∈ ts, t.Proper := fun u hu => hp u (List.mem_cons_of_mem t hu)
    have hf : Yields (primary (c.moved (ts ++ us))) e us := ih hp' rfl hu hn
    exact hf.signed hc (Tier.sum_op?_minus ht)
  | product hd ih =>
    intro c us hp hc hu hn
    obtain ⟨hg, hs⟩ := stops_sum_iff.1 hu
    show Yields (operand .sum c) _ us
    rw [operand]
    exact (ih hp hc hg hn).close hs
  | factor hd ih =>
    intro c us hp hc hu hn
    show Yields (operand .product c) _ us
    rw [operand]
    exact ih hp hc hu hn
  | single hd ih =>
    intro c us hp hc hu hn
    exact (ih hp hc hu hn).single
  | @link tier k ts t us op l r n m hl hop hr ihl ihr =>
    intro c vs hp hc hu hn
    rw [List.append_assoc, List.cons_append] at hc
    have hpl : ∀ t ∈ ts, t.Proper := fun t ht => hp t (List.mem_append_left _ ht)
    have hpr : ∀ t ∈ us, t.Proper := by
      intro u hu
      exact hp u (List.mem_append_right _ (List.mem_cons_of_mem t hu))
    refine (ihl hpl hc (stops_operator hop) (by omega)).link hop (by omega) ?_
    intro inner hrest hdepth
    exact ihr hpr hrest hu (by omega)

end OneUnknown.Grammar
