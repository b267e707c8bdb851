/-
  Beyond the limit the reader refuses for the nesting, and for nothing else.

  * `Refuses x`: the reading `x` ends because one more level would have to be opened.
  * `exists_open_of_derives`: the links behind a chain that is derived within the limit decide how
    reading the chain fails.
  * `refused_of_derives`: by induction on a derivation that needs more levels than there are.
  * `Expr.ofTokens_of_derives`: so a derivation alone decides what becomes of its tokens.
-/
import OneUnknown.Proofs.Grammar.Acceptance

namespace OneUnknown

namespace Grammar

/-! ## Refusals -/

/-- The reading `x` ends because too many levels would be open. -/
def Refuses {α : Type} (x : Except Fault α) : Prop :=
  ∃ place, x = .error ⟨.tooDeep nestingLimit, place⟩

theorem Refuses.bind {α β : Type} {x : Except Fault α} (h : Refuses x) (f : α → Except Fault β) :
    Refuses (x >>= f) := by
  obtain ⟨place, rfl⟩ := h
  exact ⟨place, rfl⟩

theorem Refuses.of_bind {α β : Type} {x : Except Fault α} {f : α → Except Fault β} {a : α}
    (hx : x = .ok a) (h : Refuses (f a)) : Refuses (x >>= f) := by
  subst hx
  exact h

theorem Refuses.map {α β : Type} {x : Except Fault α} (h : Refuses x) (f : α → β) :
    Refuses (x.map f) := by
  obtain ⟨place, rfl⟩ := h
  exact ⟨place, rfl⟩

/-- Reading a `k` from `c` ends because too many levels would be open. -/
def Refused (k : Construct) (c : Cursor) : Prop :=
  match k with
  | .chain tier _ => Refuses (chain tier c)
  | .operand tier => Refuses (operand tier c)
  | .factor => Refuses (factor c)
  | .primary => Refuses (primary c)
  | .atom => Refuses (atom c)

theorem Cursor.refuses_descend {c : Cursor} (h : ¬ c.depth < nestingLimit) : Refuses c.descend :=
  ⟨c.deeper, if_neg h⟩

/-! ## Links -/

/-- What the links behind the operand at `d` give, once it is read. -/
theorem links_eq_error_of_operand {tier : Tier} {base : Nat} {l : Expr} {d : Cursor} {t : Token}
    {op : Op} {ts : List Token} {r : Consumed Expr (d.moved ts).deeper} {fault : Fault}
    (hd : d.rest = t :: ts) (hop : tier.op? t.kind = some op) (hlt : d.depth < nestingLimit)
    (hr : operand tier (d.moved ts).deeper = .ok r)
    (h : links tier base (.bin op l r.value) r.next = .error fault) :
    links tier base l d = .error fault := by
  have hdesc : (d.moved ts).descend = .ok ⟨(d.moved ts).deeper, rfl⟩ :=
    Cursor.descend_eq_ok_iff.2 ⟨hlt, rfl⟩
  rw [links, Cursor.operator?_of_cons hd hop]
  exact bind_eq_error_iff.2 (.inr ⟨_, hdesc, bind_eq_error_iff.2 (.inr ⟨r, hr,
    bind_eq_error_iff.2 (.inl h)⟩)⟩)

/-- The links behind an operation are refused where its level or its operand is. -/
theorem refuses_links {tier : Tier} {base : Nat} {l : Expr} {d : Cursor} {t : Token} {op : Op}
    {ts : List Token} (hd : d.rest = t :: ts) (hop : tier.op? t.kind = some op)
    (h : d.depth < nestingLimit → Refuses (operand tier (d.moved ts).deeper)) :
    Refuses (links tier base l d) := by
  rw [links, Cursor.operator?_of_cons hd hop]
  by_cases hlt : d.depth < nestingLimit
  · have hdesc : (d.moved ts).descend = .ok ⟨(d.moved ts).deeper, rfl⟩ :=
      Cursor.descend_eq_ok_iff.2 ⟨hlt, rfl⟩
    exact .of_bind hdesc ((h hlt).bind _)
  · have hdesc : Refuses (d.moved ts).descend := Cursor.refuses_descend hlt
    exact hdesc.bind _

/-- Within the limit a chain is read up to a place from where its links decide how it fails. -/
theorem exists_open_of_derives {tier : Tier} {k : Nat} {ts : List Token} {e : Expr} {n : Nat}
    (h : Derives Decimal.tenTo (.chain tier k) ts e n) {c : Cursor} {us : List Token}
    (hp : ∀ t ∈ ts, t.Proper) (hc : c.rest = ts ++ us) (hu : Stops tier.goesOn us)
    (hn : c.depth + n ≤ nestingLimit) : ∃ d : Cursor, d.rest = us ∧ d.depth = c.depth + k ∧
      ∀ fault, links tier c.depth e d = .error fault → chain tier c = .error fault := by
  induction k generalizing ts e n us with
  | zero =>
    cases h with
    | single hd =>
      obtain ⟨r, hr, rfl, hrest, hdepth⟩ := readsTo_of_derives hd hp hc hu hn
      refine ⟨r.next, hrest, hdepth, fun fault hf => ?_⟩
      rw [chain]
      exact bind_eq_error_iff.2 (.inr ⟨r, hr, bind_eq_error_iff.2 (.inl hf)⟩)
  | succ k ih =>
    cases h with
    | @link _ _ ts t vs op l r n m hl hop hr =>
      rw [List.append_assoc, List.cons_append] at hc
      have hpl : ∀ t ∈ ts, t.Proper := fun t ht => hp t (List.mem_append_left _ ht)
      have hpr : ∀ t ∈ vs, t.Proper := by
        intro u hu
        exact hp u (List.mem_append_right _ (List.mem_cons_of_mem t hu))
      obtain ⟨d, hd, hdepth, hfail⟩ := ih hl hpl hc (stops_operator hop) (by omega)
      have hid : (d.moved (vs ++ us)).deeper.depth = c.depth + k + 1 := congrArg (· + 1) hdepth
      obtain ⟨r, hread, rfl, hrest, hback⟩ :=
        readsTo_of_derives (c := (d.moved (vs ++ us)).deeper) hr hpr rfl hu (by omega)
      exact ⟨r.next, hrest, hback.trans hid, fun fault hf =>
        hfail fault (links_eq_error_of_operand hd hop (by omega) hread hf)⟩

/-! ## Beyond the limit -/

theorem refuses_factor {c : Cursor} (h : Refuses (primary c.sign.next)) : Refuses (factor c) := by
  rw [factor]
  exact h.bind _

theorem refuses_primary {c : Cursor} {t : Token} {ts : List Token} (hc : c.rest = t :: ts)
    (ht : t.kind = .lparen) (hlt : ¬ c.depth < nestingLimit) : Refuses (primary c) := by
  have hdesc : Refuses (c.moved ts).descend := Cursor.refuses_descend hlt
  rw [primary, Cursor.token?_of_cons hc ht]
  exact hdesc.bind _

/-- **What needs too many levels is refused.** -/
theorem refused_of_derives {k : Construct} {ts : List Token} {e : Expr} {n : Nat}
    (h : Derives Decimal.tenTo k ts e n) : ∀ {c : Cursor} {us : List Token}, (∀ t ∈ ts, t.Proper) →
      c.rest = ts ++ us → Stops k.goesOn us → c.depth ≤ nestingLimit →
      nestingLimit < c.depth + n → Refused k c := by
  induction h with
  | number | scaled | letter => intro c us _ _ _ hd hn; omega
  | atom ha _ =>
    intro c us hp hc hu hd hn
    -- an atom needs no level
    obtain ⟨rfl, -⟩ := atom_complete ha hp hc hu
    omega
  | @parens k o ts cl e n ho hd hcl ih =>
    intro c us hp hc hu hdepth hn
    rw [List.append_assoc] at hc
    show Refuses (primary c)
    rw [primary, Cursor.token?_of_cons hc ho]
    by_cases hlt : c.depth < nestingLimit
    · have hp' : ∀ t ∈ ts, t.Proper := by
        intro t ht
        exact hp t (List.mem_append_left _ (List.mem_cons_of_mem o ht))
      have hdesc : (c.moved (ts ++ ([cl] ++ us))).descend =
          .ok ⟨(c.moved (ts ++ ([cl] ++ us))).deeper, rfl⟩ :=
        Cursor.descend_eq_ok_iff.2 ⟨hlt, rfl⟩
      have hinner : (c.moved (ts ++ ([cl] ++ us))).deeper.depth = c.depth + 1 := rfl
      have hbody : Refuses (chain .sum (c.moved (ts ++ ([cl] ++ us))).deeper) :=
        ih hp' rfl (stops_rparen hcl).1 (by omega) (by omega)
      exact .of_bind hdesc (hbody.bind _)
    · have hdesc : Refuses (c.moved (ts ++ ([cl] ++ us))).descend := Cursor.refuses_descend hlt
      exact hdesc.bind _
  | unsigned hd ih =>
    intro c us hp hc hu hdepth hn
    have hstop : Stops Tier.sum.isOperator c.rest := hc ▸ hd.stops_of_primary
    have hs := Cursor.operator?_eq_none_iff.2 hstop
    have hsign : c.sign = ⟨false, c, Nat.le_refl _⟩ := by rw [Cursor.sign, hs]
    refine refuses_factor ?_
    rw [hsign]
    exact ih hp hc hu hdepth hn
  | @plus t ts e n ht hd ih =>
    intro c us hp hc hu hdepth hn
    have hp' : ∀ t ∈ ts, t.Proper := fun u hu => hp u (List.mem_cons_of_mem t hu)
    refine refuses_factor ?_
    rw [(Cursor.sign_of_operator hc (Tier.sum_op?_plus ht)).2]
    exact ih (c := c.moved (ts ++ us)) hp' rfl hu hdepth hn
  | @minus t ts e n ht hd ih =>
    intro c us hp hc hu hdepth hn
    have hp' : ∀ t ∈ ts, t.Proper := fun u hu => hp u (List.mem_cons_of_mem t hu)
    refine refuses_factor ?_
    rw [(Cursor.sign_of_operator hc (Tier.sum_op?_minus ht)).2]
    exact ih (c := c.moved (ts ++ us)) hp' rfl hu hdepth hn
  | product hd ih =>
    intro c us hp hc hu hdepth hn
    show Refuses (operand .sum c)
    rw [operand]
    exact ih hp hc (stops_sum_iff.1 hu).1 hdepth hn
  | factor hd ih =>
    intro c us hp hc hu hdepth hn
    show Refuses (operand .product c)
    rw [operand]
    exact ih hp hc hu hdepth hn
  | @single tier ts e n hd ih =>
    intro c us hp hc hu hdepth hn
    show Refuses (chain tier c)
    rw [chain]
    exact Refuses.bind (ih hp hc hu hdepth hn) _
  | @link tier k ts t us op l r n m hl hop hr ihl ihr =>
    intro c vs hp hc hu hdepth hn
    rw [List.append_assoc, List.cons_append] at hc
    have hpl : ∀ t ∈ ts, t.Proper := fun t ht => hp t (List.mem_append_left _ ht)
    have hpr : ∀ t ∈ us, t.Proper := by
      intro u hu
      exact hp u (List.mem_append_right _ (List.mem_cons_of_mem t hu))
    by_cases hle : c.depth + n ≤ nestingLimit
    · -- the operations in front of the operand fit, so its links refuse
      obtain ⟨d, hd, hdd, hfail⟩ := exists_open_of_derives hl hpl hc (stops_operator hop) hle
      have hid : (d.moved (us ++ vs)).deeper.depth = d.depth + 1 := rfl
      have hlinks : Refuses (links tier c.depth l d) := refuses_links hd hop fun hlt =>
        ihr (c := (d.moved (us ++ vs)).deeper) hpr rfl hu (by omega) (by omega)
      obtain ⟨place, hplace⟩ := hlinks
      exact ⟨place, hfail _ hplace⟩
    · exact ihl hpl hc (stops_operator hop) hdepth (by omega)

end Grammar

open Grammar

/-- **A derivation decides what becomes of its tokens**: they are read, or they are too deep. -/
theorem Expr.ofTokens_of_derives {k : Nat} {ts : List Token} {e : Expr} {n : Nat}
    (h : Derives Decimal.tenTo (.chain .sum k) ts e n) (hp : ∀ t ∈ ts, t.Proper) :
    Expr.ofTokens ts = if n ≤ nestingLimit then .ok e else .error (.tooDeep nestingLimit) := by
  split_ifs with hn
  · exact (Expr.ofTokens_eq_ok_iff hp).2 ⟨k, n, h, hn⟩
  · have hc : (Cursor.start ts).rest = ts ++ [] := (List.append_nil ts).symm
    have hdepth : (Cursor.start ts).depth = 0 := rfl
    obtain ⟨place, hr⟩ := refused_of_derives h hp hc stops_nil (by omega) (by omega)
    simp only [Expr.ofTokens, hr]

end OneUnknown
