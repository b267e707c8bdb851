/-
  The reader is sound: what it reads is derived, within the limit.

  * One lemma for each step of a cursor: an operation, a token, a level opened.
  * `Reads k c e d`: between `c` and `d` stands a construct `k` for `e`, whose levels fit above
    those open at `c` and are closed again at `d`; one lemma for each way to put it together.
  * `chain_sound` and its companions follow the recursion of the reader.
-/
import OneUnknown.Grammar.Descent
import OneUnknown.Proofs.Grammar.Atoms

namespace OneUnknown.Grammar

/-! ## Steps of a cursor -/

/-- The kinds of the operations of a tier. -/
def Tier.isOperator (tier : Tier) (k : Kind) : Bool :=
  (tier.op? k).isSome

theorem Tier.sum_op?_eq_some_iff {k : Kind} {op : Op} :
    Tier.sum.op? k = some op ↔ k = .plus ∧ op = .add ∨ k = .minus ∧ op = .sub := by
  cases k <;> simp [Tier.op?, eq_comm]

theorem Tier.sum_op?_plus {k : Kind} (h : k = .plus) : Tier.sum.op? k = some .add :=
  Tier.sum_op?_eq_some_iff.2 (.inl ⟨h, rfl⟩)

theorem Tier.sum_op?_minus {k : Kind} (h : k = .minus) : Tier.sum.op? k = some .sub :=
  Tier.sum_op?_eq_some_iff.2 (.inr ⟨h, rfl⟩)

namespace Cursor

theorem operator?_eq_none_iff {tier : Tier} {c : Cursor} :
    c.operator? tier = none ↔ Stops tier.isOperator c.rest := by
  unfold operator?
  split
  · next hr => simp [hr, stops_nil]
  · next t ts hr => simp [hr, stops_cons_iff, Tier.isOperator]

theorem operator?_eq_some_iff {tier : Tier} {c : Cursor} {op : Consumed Op c} :
    c.operator? tier = some op ↔ ∃ t ts, c.rest = t :: ts ∧ tier.op? t.kind = some op.value ∧
      op.next = c.moved ts := by
  obtain ⟨o, d, hd⟩ := op
  unfold operator?
  split
  · next hr => simp [hr]
  · next t ts hr =>
    simp only [hr, Option.map_eq_some_iff, List.cons.injEq]
    constructor
    · rintro ⟨_, ho, heq⟩
      cases heq
      exact ⟨t, ts, ⟨rfl, rfl⟩, ho, rfl⟩
    · rintro ⟨_, _, ⟨rfl, rfl⟩, ho, rfl⟩
      exact ⟨o, ho, rfl⟩

theorem operator?_of_cons {tier : Tier} {c : Cursor} {t : Token} {ts : List Token} {op : Op}
    (hc : c.rest = t :: ts) (hop : tier.op? t.kind = some op) :
    c.operator? tier = some ⟨op, c.moved ts, length_moved_lt hc⟩ :=
  operator?_eq_some_iff.2 ⟨t, ts, hc, hop, rfl⟩

theorem sign_of_operator {c : Cursor} {t : Token} {ts : List Token} {op : Op}
    (hc : c.rest = t :: ts) (hop : Tier.sum.op? t.kind = some op) :
    c.sign.value = decide (op = .sub) ∧ c.sign.next = c.moved ts := by
  rw [sign, operator?_of_cons hc hop]
  exact ⟨rfl, rfl⟩

theorem token?_eq_none_iff {k : Kind} {c : Cursor} :
    c.token? k = none ↔ Stops (decide <| · = k) c.rest := by
  unfold token?
  split
  · next hr => simp [hr, stops_nil]
  · next t ts hr => simp [hr, stops_cons_iff]

theorem token?_eq_some_iff {k : Kind} {c : Cursor} {r : Consumed Unit c} :
    c.token? k = some r ↔ ∃ t ts, c.rest = t :: ts ∧ t.kind = k ∧ r.next = c.moved ts := by
  obtain ⟨u, d, hd⟩ := r
  unfold token?
  split
  · next hr => simp [hr]
  · next t ts hr =>
    simp only [hr, Option.ite_none_right_eq_some, Option.some.injEq, List.cons.injEq]
    constructor
    · rintro ⟨hk, heq⟩
      cases heq
      exact ⟨t, ts, ⟨rfl, rfl⟩, hk, rfl⟩
    · rintro ⟨_, _, ⟨rfl, rfl⟩, hk, rfl⟩
      exact ⟨hk, rfl⟩

theorem token?_of_cons {k : Kind} {c : Cursor} {t : Token} {ts : List Token}
    (hc : c.rest = t :: ts) (hk : t.kind = k) :
    c.token? k = some ⟨(), c.moved ts, length_moved_lt hc⟩ :=
  token?_eq_some_iff.2 ⟨t, ts, hc, hk, rfl⟩

theorem descend_eq_ok_iff {c : Cursor} {d : { d : Cursor // d.rest = c.rest }} :
    c.descend = .ok d ↔ c.depth < nestingLimit ∧ d.val = c.deeper := by
  unfold descend
  split_ifs with h
  · simp [h, Subtype.ext_iff, eq_comm]
  · simp [h]

/-- No more levels are open than may be, and the tokens ahead are proper. -/
structure Valid (c : Cursor) : Prop where
  proper : ∀ t ∈ c.rest, t.Proper
  depth_le : c.depth ≤ nestingLimit

end Cursor

/-! ## What is read -/

/-- Between `c` and `d` stands a construct for `e`, whose levels fit above those open at `c`. -/
def Reads (k : Construct) (c : Cursor) (e : Expr) (d : Cursor) : Prop :=
  ∃ ts n, Derives Decimal.tenTo k ts e n ∧ c.rest = ts ++ d.rest ∧ d.depth = c.depth ∧
    c.depth + n ≤ nestingLimit

/-- Between `c` and `d` stands a chain for `e`, the levels of whose operations are still open. -/
def ReadsOpen (tier : Tier) (k : Nat) (c : Cursor) (e : Expr) (d : Cursor) : Prop :=
  ∃ ts n, Derives Decimal.tenTo (.chain tier k) ts e n ∧ c.rest = ts ++ d.rest ∧
    d.depth = c.depth + k ∧ c.depth + n ≤ nestingLimit

namespace Reads

variable {k : Construct} {c d : Cursor} {e : Expr}

theorem valid (h : Reads k c e d) (hc : c.Valid) : d.Valid := by
  obtain ⟨ts, n, -, hrest, hdepth, -⟩ := h
  refine ⟨?_, hdepth ▸ hc.depth_le⟩
  intro t ht
  exact hc.proper t (hrest ▸ List.mem_append_right ts ht)

theorem weaken {k' : Construct} (h : Reads k c e d)
    (hk : ∀ {ts n}, Derives Decimal.tenTo k ts e n → Derives Decimal.tenTo k' ts e n) :
    Reads k' c e d := by
  obtain ⟨ts, n, hd, h⟩ := h
  exact ⟨ts, n, hk hd, h⟩

theorem sign (h : Reads .primary c.sign.next e d) :
    Reads .factor c (if c.sign.value then e.negate else e) d := by
  cases ho : c.operator? .sum with
  | none =>
    have hs : c.sign = ⟨false, c, Nat.le_refl _⟩ := by rw [Cursor.sign, ho]
    rw [hs] at h ⊢
    exact h.weaken .unsigned
  | some op =>
    obtain ⟨t, ts, hc, hop, -⟩ := Cursor.operator?_eq_some_iff.1 ho
    obtain ⟨hv, hnext⟩ := Cursor.sign_of_operator hc hop
    rw [hnext] at h
    rw [hv]
    obtain ⟨us, n, hd, hrest, h⟩ := h
    have hrest' : c.rest = t :: us ++ d.rest := by
      rw [hc, List.cons_append, ← hrest]
      rfl
    rcases Tier.sum_op?_eq_some_iff.1 hop with ⟨hk, ho'⟩ | ⟨hk, ho'⟩
    · rw [ho']
      exact ⟨t :: us, n, .plus hk hd, hrest', h⟩
    · rw [ho']
      exact ⟨t :: us, n, .minus hk hd, hrest', h⟩

theorem parens {i : Nat} {o cl : Token} {us : List Token} {inner d' : Cursor}
    (h : Reads (.chain .sum i) inner e d) (ho : c.rest = o :: inner.rest) (hk : o.kind = .lparen)
    (hi : inner.depth = c.depth + 1) (hcl : d.rest = cl :: us) (hk' : cl.kind = .rparen)
    (hd' : d' = (d.moved us).ascend) : Reads .primary c e d' := by
  rw [hd']
  obtain ⟨ts, n, hd, hrest, hdepth, hn⟩ := h
  refine ⟨o :: ts ++ [cl], n + 1, .parens hk hd hk', ?_, ?_, by omega⟩
  · rw [ho, hrest, hcl, List.append_assoc]
    rfl
  · show d.depth - 1 = c.depth
    omega

theorem single {tier : Tier} (h : Reads (.operand tier) c e d) : ReadsOpen tier 0 c e d := by
  obtain ⟨ts, n, hd, h⟩ := h
  exact ⟨ts, n, .single hd, h⟩

end Reads

namespace ReadsOpen

variable {tier : Tier} {k : Nat} {s c d : Cursor} {l e : Expr}

theorem valid (h : ReadsOpen tier k s l c) (hs : s.Valid) (hk : c.depth ≤ nestingLimit) :
    c.Valid := by
  obtain ⟨ts, n, -, hrest, -⟩ := h
  refine ⟨?_, hk⟩
  intro t ht
  exact hs.proper t (hrest ▸ List.mem_append_right ts ht)

theorem link {t : Token} {op : Op} {inner : Cursor} (h : ReadsOpen tier k s l c)
    (ht : c.rest = t :: inner.rest) (hop : tier.op? t.kind = some op)
    (hi : inner.depth = c.depth + 1) (hr : Reads (.operand tier) inner e d) :
    ReadsOpen tier (k + 1) s (.bin op l e) d := by
  obtain ⟨ts, n, hd, hrest, hdepth, hn⟩ := h
  obtain ⟨us, m, hd', hrest', hdepth', hm⟩ := hr
  refine ⟨ts ++ t :: us, max n (k + 1 + m), .link hd hop hd', ?_, by omega, by omega⟩
  rw [hrest, ht, hrest', List.append_assoc]
  rfl

theorem close (h : ReadsOpen tier k s e d) : Reads (.chain tier k) s e (d.backTo s.depth) := by
  obtain ⟨ts, n, hd, hrest, -, hn⟩ := h
  exact ⟨ts, n, hd, hrest, rfl, hn⟩

end ReadsOpen

/-! ## The reader -/

theorem leaf_sound {c : Cursor} {r : Consumed Expr c} (hc : c.Valid) (h : leaf c = .ok r) :
    Reads .primary c r.value r.next := by
  unfold leaf at h
  split at h
  · cases h
  · split_ifs at h
    obtain ⟨ts, hrest, hd, hnext⟩ := atom_sound hc.proper h
    exact ⟨ts, 0, .atom hd, hrest, by rw [hnext]; rfl, hc.depth_le⟩

theorem Cursor.Valid.inner {c : Cursor} {d : { d : Cursor // d.rest = c.rest }} (hc : c.Valid)
    (h : c.descend = .ok d) : d.val.Valid ∧ d.val.depth = c.depth + 1 := by
  obtain ⟨hlt, hd⟩ := Cursor.descend_eq_ok_iff.1 h
  rw [hd]
  exact ⟨⟨hc.proper, hlt⟩, rfl⟩

theorem Cursor.Valid.tail {c : Cursor} {t : Token} {ts : List Token} (hc : c.Valid)
    (h : c.rest = t :: ts) : (c.moved ts).Valid := by
  refine ⟨?_, hc.depth_le⟩
  intro u hu
  exact hc.proper u (h ▸ List.mem_cons_of_mem t hu)

theorem Cursor.Valid.sign {c : Cursor} (hc : c.Valid) : c.sign.next.Valid := by
  cases ho : c.operator? .sum with
  | none => rwa [Cursor.sign, ho]
  | some op =>
    obtain ⟨t, ts, hct, hop, -⟩ := Cursor.operator?_eq_some_iff.1 ho
    rw [(Cursor.sign_of_operator hct hop).2]
    exact hc.tail hct

mutual

/-- **What is read as a chain is one.** -/
theorem chain_sound {tier : Tier} {c : Cursor} {r : Consumed Expr c} (hc : c.Valid)
    (h : chain tier c = .ok r) : ∃ k, Reads (.chain tier k) c r.value r.next := by
  rw [chain] at h
  obtain ⟨first, hf, h⟩ := bind_eq_ok_iff.1 h
  obtain ⟨whole, hw, h⟩ := bind_eq_ok_iff.1 h
  cases h
  have hfirst := operand_sound hc hf
  exact links_sound hc hfirst.single (hfirst.valid hc).depth_le hw
  termination_by (c.rest.length, tier.rank + 1)
  decreasing_by
    · exact Prod.Lex.right _ (Nat.lt_succ_self _)
    · exact Prod.Lex.left _ _ first.shorter

theorem operand_sound {tier : Tier} {c : Cursor} {r : Consumed Expr c} (hc : c.Valid)
    (h : operand tier c = .ok r) : Reads (.operand tier) c r.value r.next := by
  match tier, h with
  | .sum, h =>
    rw [operand] at h
    obtain ⟨k, hr⟩ := chain_sound hc h
    exact hr.weaken .product
  | .product, h =>
    rw [operand] at h
    exact (factor_sound hc h).weaken .factor
  termination_by (c.rest.length, tier.rank)
  decreasing_by
    · exact Prod.Lex.right _ (by decide)
    · exact Prod.Lex.right _ (by decide)

theorem links_sound {tier : Tier} {k : Nat} {s c : Cursor} {left : Expr} {r : Passed Expr c}
    (hs : s.Valid) (hl : ReadsOpen tier k s left c) (hc : c.depth ≤ nestingLimit)
    (h : links tier s.depth left c = .ok r) : ∃ k, Reads (.chain tier k) s r.value r.next := by
  rw [links] at h
  cases hop : c.operator? tier with
  | none =>
    rw [hop] at h
    cases h
    exact ⟨k, hl.close⟩
  | some op =>
    rw [hop] at h
    obtain ⟨t, ts, hct, hto, hnext⟩ := Cursor.operator?_eq_some_iff.1 hop
    obtain ⟨inner, hi, h⟩ := bind_eq_ok_iff.1 h
    obtain ⟨right, hr, h⟩ := bind_eq_ok_iff.1 h
    obtain ⟨whole, hw, h⟩ := bind_eq_ok_iff.1 h
    cases h
    have hnextv : op.next.Valid := hnext ▸ (hl.valid hs hc).tail hct
    obtain ⟨hiv, hid⟩ := hnextv.inner hi
    have hright := operand_sound hiv hr
    have hct' : c.rest = t :: inner.val.rest := by rw [inner.property, hnext, hct]; rfl
    have hid' : inner.val.depth = c.depth + 1 := by rw [hid, hnext]; rfl
    have hwhole := links_sound hs (hl.link hct' hto hid' hright) (hright.valid hiv).depth_le hw
    exact hwhole
  termination_by (c.rest.length, 0)
  decreasing_by
    all_goals have hlt : inner.val.rest.length < c.rest.length := inner.property.symm ▸ op.shorter
    · exact Prod.Lex.left _ _ hlt
    · exact Prod.Lex.left _ _ (Nat.lt_trans right.shorter hlt)

theorem factor_sound {c : Cursor} {r : Consumed Expr c} (hc : c.Valid) (h : factor c = .ok r) :
    Reads .factor c r.value r.next := by
  rw [factor] at h
  obtain ⟨inner, hi, h⟩ := bind_eq_ok_iff.1 h
  cases h
  exact (primary_sound hc.sign hi).sign
  termination_by (c.rest.length, 1)
  decreasing_by exact Prod.Lex.right' _ c.sign.noLonger (by decide)

theorem primary_sound {c : Cursor} {r : Consumed Expr c} (hc : c.Valid)
    (h : primary c = .ok r) : Reads .primary c r.value r.next := by
  rw [primary] at h
  cases ho : c.token? .lparen with
  | none =>
    rw [ho] at h
    exact leaf_sound hc h
  | some opened =>
    rw [ho] at h
    obtain ⟨t, ts, hct, htk, hnext⟩ := Cursor.token?_eq_some_iff.1 ho
    obtain ⟨inner, hi, h⟩ := bind_eq_ok_iff.1 h
    obtain ⟨body, hb, h⟩ := bind_eq_ok_iff.1 h
    cases hcl : body.next.token? .rparen with
    | none =>
      rw [hcl] at h
      cases h
    | some closed =>
      rw [hcl] at h
      cases h
      obtain ⟨u, us, hbu, huk, hnext'⟩ := Cursor.token?_eq_some_iff.1 hcl
      have hnextv : opened.next.Valid := hnext ▸ hc.tail hct
      obtain ⟨hiv, hid⟩ := hnextv.inner hi
      obtain ⟨k, hbody⟩ := chain_sound hiv hb
      have hct' : c.rest = t :: inner.val.rest := by rw [inner.property, hnext, hct]; rfl
      have hid' : inner.val.depth = c.depth + 1 := by rw [hid, hnext]; rfl
      exact hbody.parens hct' htk hid' hbu huk (congrArg Cursor.ascend hnext')
  termination_by (c.rest.length, 0)
  decreasing_by exact Prod.Lex.left _ _ (inner.property.symm ▸ opened.shorter)

end

end OneUnknown.Grammar
