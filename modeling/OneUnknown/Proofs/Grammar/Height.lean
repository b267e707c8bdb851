/-
  How high the trees of the reader are.

  The levels of a chain are closed where it ends, but its tree stays, as the left operand of the
  next chain.  So the limit on the levels is none on the height:

  * `height_le_ceiling`: by induction on a derivation that needs `n` levels; for a sum the bound is
    `n * (n + 2) - 1`, which the tokens `tall n` attain (`exists_height_eq`).
  * `Rises k ts h`: the height, from the tokens alone; `height_le_iff_rises`.
  * `forall_height_le_iff`: up to how many levels the limit holds for the height as well.
-/
import Mathlib.Tactic.Ring
import OneUnknown.Proofs.Grammar.Acceptance

namespace OneUnknown

theorem Expr.height_negate (e : Expr) :
    e.negate.height = if e.height = 0 then 0 else e.height + 1 := by
  cases e <;> simp [Expr.negate, Expr.height]

namespace Grammar

variable {scale : Nat → Nat}

/-! ## The bound -/

/-- The largest height of an operand that needs `n` levels. -/
def Tier.ceiling : Tier → Nat → Nat
  | .product, n => n * n - 1
  | .sum, n => n * n - 1 + n

/-- The largest height of a construct that needs `n` levels. -/
def Construct.ceiling : Construct → Nat → Nat
  | .chain tier k, n => tier.ceiling n + k
  | .operand tier, n => tier.ceiling n
  | .factor, n => n * n - 1
  | .primary, n => n * n - 2
  | .atom, _ => 0

theorem Tier.ceiling_mono {tier : Tier} {m n : Nat} (h : m ≤ n) :
    tier.ceiling m ≤ tier.ceiling n := by
  have hsq : m * m ≤ n * n := Nat.mul_self_le_mul_self h
  cases tier with
  | sum => simp only [Tier.ceiling]; omega
  | product => simp only [Tier.ceiling]; omega

/-- Each operation of a chain needs a level. -/
theorem Derives.operations_le {tier : Tier} {k : Nat} {ts : List Token} {e : Expr} {n : Nat}
    (h : Derives scale (.chain tier k) ts e n) : k ≤ n := by
  cases h with
  | single => exact Nat.zero_le _
  | link => omega

/-- **No construct is higher than its ceiling.** -/
theorem height_le_ceiling {k : Construct} {ts : List Token} {e : Expr} {n : Nat}
    (h : Derives scale k ts e n) : e.height ≤ k.ceiling n := by
  induction h with
  | number | scaled | letter => exact Nat.le_refl 0
  | atom _ ih => exact Nat.le_trans ih (Nat.zero_le _)
  | @parens k o ts c e n _ hd _ ih =>
    have hk := hd.operations_le
    have hsq : (n + 1) * (n + 1) = n * n + 2 * n + 1 := by ring
    simp only [Construct.ceiling, Tier.ceiling] at ih ⊢
    rcases Nat.eq_zero_or_pos n with rfl | hn
    · omega
    · have hpos : 0 < n * n := Nat.mul_pos hn hn
      omega
  | unsigned _ ih | plus _ _ ih =>
    simp only [Construct.ceiling] at ih ⊢
    omega
  | minus _ _ ih =>
    rw [Expr.height_negate]
    simp only [Construct.ceiling] at ih ⊢
    split_ifs with h₀
    · exact Nat.zero_le _
    · omega
  | @product k ts e n hd ih =>
    have hk := hd.operations_le
    simp only [Construct.ceiling, Tier.ceiling] at ih ⊢
    omega
  | factor _ ih => exact ih
  | single _ ih => exact ih
  | @link tier k ts t us op l r n m _ _ _ ihl ihr =>
    have hl : tier.ceiling n ≤ tier.ceiling (max n (k + 1 + m)) := Tier.ceiling_mono (by omega)
    have hr : tier.ceiling m ≤ tier.ceiling (max n (k + 1 + m)) := Tier.ceiling_mono (by omega)
    simp only [Construct.ceiling, Expr.height] at ihl ihr ⊢
    omega

/-- The height of a sum is bounded by the levels it needs. -/
theorem Derives.height_le {k : Nat} {ts : List Token} {e : Expr} {n : Nat}
    (h : Derives scale (.chain .sum k) ts e n) : e.height ≤ n * (n + 2) - 1 := by
  have hk := h.operations_le
  have hc := height_le_ceiling h
  have hsq : n * (n + 2) = n * n + 2 * n := by ring
  simp only [Construct.ceiling, Tier.ceiling] at hc
  rcases Nat.eq_zero_or_pos n with rfl | hn
  · omega
  · have hpos : 0 < n * n := Nat.mul_pos hn hn
    omega

/-! ## Trees as high as that -/

/-- The digit one. -/
def one : Token := ⟨.digit, '1'⟩

/-- `j` more operations by one. -/
def byOne (t : Token) (j : Nat) : List Token :=
  (List.replicate j [t, one]).flatten

theorem byOne_succ (t : Token) (j : Nat) : byOne t (j + 1) = byOne t j ++ [t, one] := by
  rw [byOne, List.replicate_succ', List.flatten_append]
  rfl

theorem derives_one : Derives scale .factor [one] (.const (naturalOf [one])) 0 :=
  .unsigned (.atom (.number (.whole (by decide) (by decide))))

theorem derives_operand_one : ∀ tier,
    Derives scale (.operand tier) [one] (.const (naturalOf [one])) 0
  | .product => .factor derives_one
  | .sum => .product (.single (.factor derives_one))

/-- Operations by one make a chain as much higher, and need no level but their own. -/
theorem Derives.byOne {tier : Tier} {k : Nat} {ts : List Token} {e : Expr} {n : Nat} {t : Token}
    {op : Op} (h : Derives scale (.chain tier k) ts e n) (hop : tier.op? t.kind = some op)
    (j : Nat) :
    ∃ e', Derives scale (.chain tier (k + j)) (ts ++ byOne t j) e' (max n (k + j)) ∧
      e'.height = e.height + j := by
  induction j with
  | zero =>
    have hn : max n k = n := Nat.max_eq_left h.operations_le
    refine ⟨e, ?_, rfl⟩
    rw [Grammar.byOne, List.replicate_zero, List.flatten_nil, List.append_nil, Nat.add_zero, hn]
    exact h
  | succ j ih =>
    obtain ⟨e', hd, he⟩ := ih
    have hn : max (max n (k + j)) (k + j + 1 + 0) = max n (k + (j + 1)) := by omega
    refine ⟨.bin op e' (.const (naturalOf [one])), ?_, ?_⟩
    · rw [byOne_succ, ← List.append_assoc, ← hn]
      exact .link hd hop (derives_operand_one tier)
    · simp only [Expr.height, he]
      omega

/-- A text whose tree is as high as that of any text that needs `n` levels. -/
def tall : Nat → List Token
  | 0 => [one]
  | n + 1 => ⟨.minus, '-'⟩ :: (⟨.lparen, '('⟩ :: tall n ++ [⟨.rparen, ')'⟩]) ++
      byOne ⟨.times, '*'⟩ (n + 1) ++ byOne ⟨.plus, '+'⟩ (n + 1)

theorem proper_byOne {t : Token} (ht : t.Proper) (j : Nat) : ∀ u ∈ byOne t j, u.Proper := by
  have hone : one.Proper := by decide
  intro u hu
  simp only [byOne, List.mem_flatten, List.mem_replicate] at hu
  obtain ⟨l, ⟨-, rfl⟩, hu⟩ := hu
  simp only [List.mem_cons, List.not_mem_nil, or_false] at hu
  rcases hu with rfl | rfl
  · exact ht
  · exact hone

theorem proper_tall (n : Nat) : ∀ t ∈ tall n, t.Proper := by
  have hone : one.Proper := by decide
  have hminus : Token.Proper ⟨.minus, '-'⟩ := by decide
  have hopen : Token.Proper ⟨.lparen, '('⟩ := by decide
  have hclose : Token.Proper ⟨.rparen, ')'⟩ := by decide
  have htimes := proper_byOne (t := ⟨.times, '*'⟩) (by decide)
  have hplus := proper_byOne (t := ⟨.plus, '+'⟩) (by decide)
  induction n with
  | zero => simpa [tall] using hone
  | succ n ih =>
    intro t ht
    simp only [tall, List.mem_append, List.mem_cons, List.not_mem_nil, or_false] at ht
    rcases ht with ((rfl | (rfl | ht) | rfl) | ht) | ht
    · exact hminus
    · exact hopen
    · exact ih t ht
    · exact hclose
    · exact htimes _ t ht
    · exact hplus _ t ht

/-- **Every number of levels has a text whose tree is as high as it may be.** -/
theorem exists_height_eq (n : Nat) :
    ∃ e k, Derives scale (.chain .sum k) (tall n) e n ∧ e.height = n * (n + 2) - 1 := by
  induction n with
  | zero => exact ⟨_, 0, .single (derives_operand_one .sum), rfl⟩
  | succ n ih =>
    obtain ⟨e, k, hd, he⟩ := ih
    have hmax : max (n + 1) (0 + (n + 1)) = n + 1 := by omega
    have hp : Derives scale .primary (⟨.lparen, '('⟩ :: tall n ++ [⟨.rparen, ')'⟩]) e (n + 1) :=
      .parens rfl hd rfl
    have hf : Derives scale .factor
        (⟨.minus, '-'⟩ :: (⟨.lparen, '('⟩ :: tall n ++ [⟨.rparen, ')'⟩])) e.negate (n + 1) :=
      .minus rfl hp
    have htimes : Tier.product.op? (Token.kind ⟨.times, '*'⟩) = some .mul := rfl
    have hplus : Tier.sum.op? (Token.kind ⟨.plus, '+'⟩) = some .add := rfl
    obtain ⟨e₁, h₁, he₁⟩ := (Derives.single (.factor hf)).byOne htimes (n + 1)
    rw [hmax] at h₁
    obtain ⟨e₂, h₂, he₂⟩ := (Derives.single (.product h₁)).byOne hplus (n + 1)
    rw [hmax] at h₂
    refine ⟨e₂, 0 + (n + 1), h₂, ?_⟩
    have hsq : (n + 1) * (n + 1 + 2) = n * (n + 2) + 2 * n + 3 := by ring
    rw [he₂, he₁, Expr.height_negate, he, hsq]
    rcases Nat.eq_zero_or_pos n with rfl | hn
    · rfl
    · have hpos : 0 < n * n := Nat.mul_pos hn hn
      have hsq' : n * (n + 2) = n * n + 2 * n := by ring
      rw [if_neg (by omega)]
      omega

/-! ## The height from the text -/

/-- The largest number of operations over an atom of a construct.  Over an operand of a chain are
the operation in front of it and all behind it; its need counts those in front of it alone. -/
inductive Rises : Construct → List Token → Nat → Prop
  | leaf {ts e n} : Derives Decimal.tenTo .atom ts e n → Rises .atom ts 0
  | atom {ts h} : Rises .atom ts h → Rises .primary ts h
  | parens {k o ts c h} : o.kind = .lparen → Rises (.chain .sum k) ts h → c.kind = .rparen →
      Rises .primary (o :: ts ++ [c]) h
  | unsigned {ts h} : Rises .primary ts h → Rises .factor ts h
  | plus {t ts h} : t.kind = .plus → Rises .primary ts h → Rises .factor (t :: ts) h
  -- a minus sign is an operation, unless it goes into an atom
  | minus {t ts h} : t.kind = .minus → Rises .primary ts h →
      Rises .factor (t :: ts) (if h = 0 then 0 else h + 1)
  | product {k ts h} : Rises (.chain .product k) ts h → Rises (.operand .sum) ts h
  | factor {ts h} : Rises .factor ts h → Rises (.operand .product) ts h
  | single {tier ts h} : Rises (.operand tier) ts h → Rises (.chain tier 0) ts h
  | link {tier k ts t us op h i} : Rises (.chain tier k) ts h → tier.op? t.kind = some op →
      Rises (.operand tier) us i → Rises (.chain tier (k + 1)) (ts ++ t :: us) (max h i + 1)

theorem Derives.rises {k : Construct} {ts : List Token} {e : Expr} {n : Nat}
    (h : Derives Decimal.tenTo k ts e n) : Rises k ts e.height := by
  induction h with
  | number hq => exact .leaf (.number hq)
  | scaled hq ht => exact .leaf (.scaled hq ht)
  | letter ht => exact .leaf (.letter ht)
  | atom _ ih => exact .atom ih
  | parens ho _ hc ih => exact .parens ho ih hc
  | unsigned _ ih => exact .unsigned ih
  | plus ht _ ih => exact .plus ht ih
  | minus ht _ ih =>
    rw [Expr.height_negate]
    exact .minus ht ih
  | product _ ih => exact .product ih
  | factor _ ih => exact .factor ih
  | single _ ih => exact .single ih
  | link _ hop _ ihl ihr => exact .link ihl hop ihr

theorem Rises.exists_derives {k : Construct} {ts : List Token} {h : Nat} (hr : Rises k ts h) :
    ∃ e n, Derives Decimal.tenTo k ts e n ∧ e.height = h := by
  induction hr with
  | @leaf ts e n hd => exact ⟨e, n, hd, Nat.le_zero.1 (height_le_ceiling hd)⟩
  | atom _ ih =>
    obtain ⟨e, n, hd, he⟩ := ih
    exact ⟨e, n, .atom hd, he⟩
  | parens ho _ hc ih =>
    obtain ⟨e, n, hd, he⟩ := ih
    exact ⟨e, n + 1, .parens ho hd hc, he⟩
  | unsigned _ ih =>
    obtain ⟨e, n, hd, he⟩ := ih
    exact ⟨e, n, .unsigned hd, he⟩
  | plus ht _ ih =>
    obtain ⟨e, n, hd, he⟩ := ih
    exact ⟨e, n, .plus ht hd, he⟩
  | minus ht _ ih =>
    obtain ⟨e, n, hd, he⟩ := ih
    exact ⟨e.negate, n, .minus ht hd, by rw [Expr.height_negate, he]⟩
  | product _ ih =>
    obtain ⟨e, n, hd, he⟩ := ih
    exact ⟨e, n, .product hd, he⟩
  | factor _ ih =>
    obtain ⟨e, n, hd, he⟩ := ih
    exact ⟨e, n, .factor hd, he⟩
  | single _ ih =>
    obtain ⟨e, n, hd, he⟩ := ih
    exact ⟨e, n, .single hd, he⟩
  | @link _ _ _ _ _ op _ _ _ hop _ ihl ihr =>
    obtain ⟨l, n, hl, rfl⟩ := ihl
    obtain ⟨r, m, hr, rfl⟩ := ihr
    exact ⟨.bin op l r, _, .link hl hop hr, rfl⟩

/-! ## Accepted texts -/

/-- The tokens are read as `e`, for which `n` levels have to be opened. -/
structure ReadWith (ts : List Token) (e : Expr) (n : Nat) : Prop where
  proper : ∀ t ∈ ts, t.Proper
  read : Expr.ofTokens ts = .ok e
  need : ∃ k, Derives Decimal.tenTo (.chain .sum k) ts e n

theorem ReadWith.of_derives {k : Nat} {ts : List Token} {e : Expr} {n : Nat}
    (h : Derives Decimal.tenTo (.chain .sum k) ts e n) (hp : ∀ t ∈ ts, t.Proper)
    (hn : n ≤ nestingLimit) : ReadWith ts e n :=
  ⟨hp, (Expr.ofTokens_eq_ok_iff hp).2 ⟨k, n, h, hn⟩, k, h⟩

theorem ReadWith.height_le {ts : List Token} {e : Expr} {n : Nat} (h : ReadWith ts e n) :
    e.height ≤ n * (n + 2) - 1 := by
  obtain ⟨k, hd⟩ := h.need
  exact hd.height_le

theorem exists_readWith_height_eq {n : Nat} (hn : n ≤ nestingLimit) :
    ∃ ts e, ReadWith ts e n ∧ e.height = n * (n + 2) - 1 := by
  obtain ⟨e, k, hd, he⟩ := exists_height_eq n
  exact ⟨tall n, e, .of_derives hd (proper_tall n) hn, he⟩

/-- The limit on the levels is one on the height for no more than 21 levels. -/
theorem forall_height_le_iff {n : Nat} (hn : n ≤ nestingLimit) :
    (∀ ts e, ReadWith ts e n → e.height ≤ nestingLimit) ↔ n ≤ 21 := by
  constructor
  · intro h
    obtain ⟨ts, e, hr, he⟩ := exists_readWith_height_eq hn
    have hle := h ts e hr
    by_contra hlt
    have hsq : 22 * (22 + 2) ≤ n * (n + 2) := Nat.mul_le_mul (by omega) (by omega)
    rw [he, nestingLimit] at hle
    omega
  · intro hle ts e hr
    have hsq : n * (n + 2) ≤ 21 * (21 + 2) := Nat.mul_le_mul hle (by omega)
    have he := hr.height_le
    rw [nestingLimit]
    omega

theorem height_le_iff_rises {ts : List Token} {e : Expr} {n : Nat} (h : ReadWith ts e n) (m : Nat) :
    e.height ≤ m ↔ ∃ k i, Rises (.chain .sum k) ts i ∧ i ≤ m := by
  obtain ⟨k, hd⟩ := h.need
  constructor
  · intro hm
    exact ⟨k, e.height, hd.rises, hm⟩
  · rintro ⟨j, i, hr, hi⟩
    obtain ⟨e', n', hd', rfl⟩ := hr.exists_derives
    obtain ⟨-, rfl, -⟩ := hd.sum_unique hd'
    exact hi

/-- **How high a tree may be.**  The operations over an atom decide whether it is within the limit.
    Its levels alone do so up to 21; beyond, nothing less than their square is a bound. -/
theorem height_of_read {ts : List Token} {e : Expr} (hp : ∀ t ∈ ts, t.Proper)
    (h : Expr.ofTokens ts = .ok e) :
    (e.height ≤ nestingLimit ↔ ∃ k m, Rises (.chain .sum k) ts m ∧ m ≤ nestingLimit) ∧
    ∃ n, ReadWith ts e n ∧ n ≤ nestingLimit ∧ e.height ≤ n * (n + 2) - 1 ∧
      (∃ us f, ReadWith us f n ∧ f.height = n * (n + 2) - 1) ∧
      ((∀ us f, ReadWith us f n → f.height ≤ nestingLimit) ↔ n ≤ 21) := by
  obtain ⟨k, n, hd, hn⟩ := (Expr.ofTokens_eq_ok_iff hp).1 h
  have hr : ReadWith ts e n := ⟨hp, h, k, hd⟩
  refine ⟨height_le_iff_rises hr nestingLimit, n, hr, hn, hr.height_le, ?_, ?_⟩
  · exact exists_readWith_height_eq hn
  · exact forall_height_le_iff hn

theorem height_of_read_signedProduct : (∀ t ∈ signedProduct, t.Proper) ∧
    Expr.ofTokens signedProduct =
      .ok (.bin .mul (.mono ⟨'x', -1⟩) (.bin .sub (.const 2) (.unknown 'y'))) ∧
    ∃ k m, Rises (.chain .sum k) signedProduct m ∧ m ≤ nestingLimit := by
  have hp : ∀ t ∈ signedProduct, t.Proper := by decide
  have h := (ReadWith.of_derives derives_signedProduct hp (by decide)).read
  exact ⟨hp, h, (height_of_read hp h).1.1 (by decide)⟩

/-- The tokens of `1*1*…*1+1+…+1`, with 257 products and 256 sums. -/
def mixedChain : List Token :=
  [one] ++ byOne ⟨.times, '*'⟩ 257 ++ byOne ⟨.plus, '+'⟩ 256

/-- A text within the limit whose tree is higher than the limit. -/
theorem height_of_mixedChain : (∀ t ∈ mixedChain, t.Proper) ∧
    ∃ e, Expr.ofTokens mixedChain = .ok e ∧ e.height = nestingLimit + 1 := by
  have htimes : Tier.product.op? (Token.kind ⟨.times, '*'⟩) = some .mul := rfl
  have hplus : Tier.sum.op? (Token.kind ⟨.plus, '+'⟩) = some .add := rfl
  obtain ⟨e₁, h₁, he₁⟩ := (Derives.single (.factor derives_one)).byOne htimes 257
  obtain ⟨e₂, h₂, he₂⟩ := (Derives.single (.product h₁)).byOne hplus 256
  have hp : ∀ t ∈ mixedChain, t.Proper := by
    intro t ht
    simp only [mixedChain, List.mem_append, List.mem_singleton] at ht
    rcases ht with (rfl | ht) | ht
    · decide
    · exact proper_byOne (by decide) _ t ht
    · exact proper_byOne (by decide) _ t ht
  refine ⟨hp, e₂, (ReadWith.of_derives h₂ hp (by decide)).read, ?_⟩
  rw [he₂, he₁]
  rfl

end Grammar

end OneUnknown
