/-
  What is written is derived by the grammar, as the regrouped tree.

  * `exists_derives_factor`: what is not written as a chain is a factor.
  * `Front scale tier fs front`: the tokens `fs` are what comes before an operand in a chain of tier
    `tier`, and `front` puts it in front of the operand.
  * `prolongs`: what is written behind a front prolongs the chain; by induction on the expression,
    for all fronts at once.
-/
import OneUnknown.Proofs.Grammar.Limit
import OneUnknown.Proofs.Rendering.Regrouping

namespace OneUnknown

open Token

variable {scale : Nat → Nat}

namespace Grammar

/-! ## Factors -/

/-- A factor is an operand of sums and of products. -/
theorem Derives.operand {ts : List Token} {e : Expr} {n : Nat} (h : Derives scale .factor ts e n) :
    ∀ tier, Derives scale (.operand tier) ts e n
  | .sum => .product (.single (.factor h))
  | .product => .factor h

theorem Derives.enclose {k : Nat} {cs : List Char} {e : Expr} {n : Nat}
    (h : Derives scale (.chain .sum k) (ofText cs) e n) :
    Derives scale .factor (ofText (Expr.enclose true cs)) e (n + 1) := by
  rw [Expr.ofText_enclose]
  exact .unsigned (.parens rfl h rfl)

theorem number_toDigits (n : Nat) : Number scale (ofText (Nat.toDigits 10 n)) n := by
  have htoken : ofText (Nat.toDigits 10 n) = (Nat.toDigits 10 n).map (⟨.digit, ·⟩) :=
    ofText_of_isDigit fun c hc => Nat.isDigit_of_mem_toDigits (by decide) (by decide) hc
  have hvalue : naturalOf (ofText (Nat.toDigits 10 n)) = n := by
    have hid : ((Nat.toDigits 10 n).map (⟨.digit, ·⟩ : Char → Token)).map (·.lexeme) =
        Nat.toDigits 10 n := by
      rw [List.map_map]
      exact List.map_id _
    rw [naturalOf, htoken, hid]
    exact Nat.ofDigitChars_toDigits (by decide) (by decide)
  have hnum : Number scale (ofText (Nat.toDigits 10 n))
      (naturalOf (ofText (Nat.toDigits 10 n))) := by
    rw [htoken]
    refine .whole ?_ ?_
    · simp
    · simp
  rwa [hvalue] at hnum

end Grammar

namespace Expr

open Grammar

/-- An integer before what makes an atom of a number, its sign going into the atom. -/
theorem derives_signed (rest : List Token) {f : Rat → Expr}
    (hf : ∀ {ts q}, Number scale ts q → Derives scale .atom (ts ++ rest) (f q) 0)
    (hneg : ∀ q, (f q).negate = f (-q)) (z : Int) :
    Derives scale .factor (ofText (integerText z) ++ rest) (f z) 0 := by
  have hatom := hf (number_toDigits z.natAbs)
  unfold integerText
  split_ifs with hz
  · have habs : (z : Rat) = -(z.natAbs : Nat) := by
      rw [← Int.cast_natCast, Int.ofNat_natAbs_of_nonpos (by omega), Int.cast_neg, neg_neg]
    rw [ofText_cons (t := ⟨.minus, '-'⟩) rfl, habs, ← hneg]
    exact .minus rfl (.atom hatom)
  · have habs : (z : Rat) = (z.natAbs : Nat) := by
      rw [← Int.cast_natCast, Int.natAbs_of_nonneg (by omega)]
    rw [habs]
    exact .unsigned (.atom hatom)

theorem derives_integer (z : Int) : Derives scale .factor (ofText (integerText z)) (const z) 0 := by
  have h : Derives scale .factor (ofText (integerText z) ++ []) (const z) 0 :=
    derives_signed [] (fun hq => by rw [List.append_nil]; exact .number hq) (fun _ => rfl) z
  rwa [List.append_nil] at h

theorem derives_whole {q : Rat} (h : q.den = 1) :
    Derives scale .factor (ofText (rationalText q)) (const q) 0 := by
  have hnum : (q.num : Rat) = q := (Rat.den_eq_one_iff q).1 h
  have hd : Derives scale .factor (ofText (integerText q.num)) (const q.num) 0 :=
    derives_integer q.num
  rw [hnum] at hd
  rwa [rationalText, if_pos h]

/-- A fraction is written as a quotient of integers. -/
theorem derives_fraction {q : Rat} (h : q.den ≠ 1) :
    Derives scale (.chain .product 1) (ofText (rationalText q))
      (bin .div (const q.num) (const q.den)) 1 := by
  rw [rationalText, if_neg h, ofText_append, ofText_cons (t := ⟨.divide, '/'⟩) rfl]
  exact .link (.single (.factor (derives_integer q.num))) rfl
    (.factor (.unsigned (.atom (.number (number_toDigits q.den)))))

theorem derives_rational (q : Rat) : ∃ k n, n ≤ 1 ∧
    Derives scale (.chain .product k) (ofText (rationalText q)) ((const q).readAs .sum id) n := by
  by_cases hq : q.den = 1
  · rw [readAs, if_pos hq]
    exact ⟨0, 0, Nat.zero_le 1, .single (.factor (derives_whole hq))⟩
  · rw [readAs, if_neg hq]
    exact ⟨1, 1, Nat.le_refl 1, derives_fraction hq⟩

theorem text_const_of_neg {q : Rat} (h : q < 0) :
    (const q).text = enclose true (rationalText q) := by
  rw [text, decide_eq_true h]

theorem text_const_of_nonneg {q : Rat} (h : 0 ≤ q) : (const q).text = rationalText q := by
  rw [text, decide_eq_false (not_lt.2 h), enclose_false]

theorem derives_negative {q : Rat} (h : q < 0) : ∃ n, n ≤ 2 ∧
    Derives scale .factor (ofText (const q).text) ((const q).readAs .sum id) n := by
  obtain ⟨k, n, hn, hd⟩ := derives_rational q
  rw [text_const_of_neg h]
  exact ⟨n + 1, Nat.succ_le_succ hn, Derives.enclose (.single (.product hd))⟩

/-- A constant needs two levels at most. -/
theorem derives_const (q : Rat) : ∃ k n, n ≤ 2 ∧
    Derives scale (.chain .product k) (ofText (const q).text) ((const q).readAs .sum id) n := by
  by_cases hneg : q < 0
  · obtain ⟨n, hn, hd⟩ := derives_negative hneg
    exact ⟨0, n, hn, .single (.factor hd)⟩
  · obtain ⟨k, n, hn, hd⟩ := derives_rational q
    rw [text_const_of_nonneg (not_lt.1 hneg)]
    exact ⟨k, n, Nat.le_succ_of_le hn, hd⟩

theorem derives_mono {m : Monomial} (hc : m.coef.den = 1)
    (hn : Kind.ofChar? m.name = some .letter) :
    Derives scale .factor (ofText m.text) (mono m) 0 := by
  obtain ⟨name, coef⟩ := m
  have hname : ofText [name] = [⟨.letter, name⟩] := ofText_cons (ofChar?_of_kind hn) []
  unfold Monomial.text
  split_ifs with h₁
  · have hone : coef = 1 := h₁
    rw [hname, hone]
    exact .unsigned (.atom (.letter rfl))
  · have hcoef : (coef.num : Rat) = coef := (Rat.den_eq_one_iff coef).1 hc
    rw [rationalText, if_pos hc, ofText_append, hname]
    have hscaled : ∀ {ts q}, Number scale ts q →
        Derives scale .atom (ts ++ [⟨.letter, name⟩]) (mono ⟨name, q⟩) 0 := fun hq => .scaled hq rfl
    have h := derives_signed _ (f := fun q => mono ⟨name, q⟩) hscaled (fun _ => rfl) coef.num
    rwa [hcoef] at h

/-- What is not written as a chain is a factor. -/
theorem exists_derives_factor {e : Expr} (h : e.Writable) (ht : e.tier? = none) (tier : Tier) :
    ∃ n, Derives scale .factor (ofText e.text) (e.readAs tier id) n := by
  cases e with
  | const q =>
    rw [readAs_id _ tier .sum]
    by_cases hneg : q < 0
    · obtain ⟨n, -, hd⟩ := derives_negative hneg
      exact ⟨n, hd⟩
    · have hq : q.den = 1 := by
        by_contra hq
        rw [tier?, if_pos ⟨hq, not_lt.1 hneg⟩] at ht
        cases ht
      rw [text_const_of_nonneg (not_lt.1 hneg), readAs, if_pos hq]
      exact ⟨0, derives_whole hq⟩
  | mono m =>
    obtain ⟨hc, hn⟩ := writable_mono_iff.1 h
    exact ⟨0, derives_mono hc hn⟩
  | bin op l r => cases ht

/-! ## Chains -/

/-- What comes before an operand in a chain, and how it is put in front of it. -/
inductive Front (scale : Nat → Nat) (tier : Tier) : List Token → (Expr → Expr) → Prop
  | none : Front scale tier [] id
  | some {k ts a n} {op : Op} : Derives scale (.chain tier k) ts a n → op.tier = tier →
      Front scale tier (ts ++ [op.token]) (bin op a)

theorem Front.operand {tier : Tier} {fs ts : List Token} {front : Expr → Expr} {e : Expr} {n : Nat}
    (hf : Front scale tier fs front) (h : Derives scale (.operand tier) ts e n) :
    ∃ k m, Derives scale (.chain tier k) (fs ++ ts) (front e) m := by
  cases hf with
  | none => exact ⟨0, n, .single h⟩
  | some hd ht =>
    subst ht
    rw [List.append_assoc]
    exact ⟨_, _, .link hd (Op.op?_tier _) h⟩

/-- Behind a front, a fraction prolongs a product by two operands. -/
theorem Front.fraction {fs : List Token} {front : Expr → Expr} {q : Rat}
    (hf : Front scale .product fs front) (h : q.den ≠ 1) : ∃ k n,
    Derives scale (.chain .product k) (fs ++ ofText (rationalText q))
      (bin .div (front (const q.num)) (const q.den)) n := by
  obtain ⟨k, n, hd⟩ := hf.operand (.factor (derives_integer q.num))
  rw [rationalText, if_neg h, ofText_append, ofText_cons (t := ⟨.divide, '/'⟩) rfl,
    ← List.append_assoc]
  exact ⟨_, _, .link hd rfl (.factor (.unsigned (.atom (.number (number_toDigits q.den)))))⟩

/-- What is written behind a front in a chain of tier `tier` prolongs that chain. -/
def Prolongs (scale : Nat → Nat) (tier : Tier) (e : Expr) : Prop :=
  ∀ (fs : List Token) (front : Expr → Expr), Front scale tier fs front → ∃ k n,
    Derives scale (.chain tier k) (fs ++ ofText (enclose (e.enclosedIn tier) e.text))
      (e.readAs tier front) n

/-- With nothing in front, the chain is what is written. -/
theorem Prolongs.alone {tier : Tier} {e : Expr} (h : e.Prolongs scale tier)
    (he : e.enclosedIn tier = false) (tier' : Tier) :
    ∃ k n, Derives scale (.chain tier k) (ofText e.text) (e.readAs tier' id) n := by
  obtain ⟨k, n, hd⟩ := h [] id .none
  rw [he, enclose_false, List.nil_append, readAs_id _ tier tier'] at hd
  exact ⟨k, n, hd⟩

theorem enclosedIn_eq_false {tier : Tier} {e : Expr} (h : e.tier? ≠ some .sum) :
    e.enclosedIn tier = false := by
  simp [enclosedIn, h]

theorem prolongs_of_operand {tier : Tier} {e : Expr} {n : Nat} (ht : e.tier? ≠ some tier)
    (h : Derives scale (.operand tier) (ofText (enclose (e.enclosedIn tier) e.text))
      (e.readAs tier id) n) : e.Prolongs scale tier := by
  intro fs front hf
  rw [readAs_of_tier?_ne ht]
  exact hf.operand h

theorem prolongs_of_tier?_eq_none {e : Expr} (h : e.Writable) (ht : e.tier? = none) (tier : Tier) :
    e.Prolongs scale tier := by
  obtain ⟨n, hd⟩ := exists_derives_factor h ht tier
  have hne : ∀ tier', e.tier? ≠ some tier' := by simp [ht]
  refine prolongs_of_operand (hne tier) (n := n) ?_
  rw [enclosedIn_eq_false (hne .sum), enclose_false]
  exact hd.operand tier

theorem prolongs_const (q : Rat) (tier : Tier) : (const q).Prolongs scale tier := by
  by_cases hq : q.den ≠ 1 ∧ 0 ≤ q
  · have ht : (const q).tier? = some .product := if_pos hq
    have hne : (const q).tier? ≠ some .sum := by rw [ht]; rintro ⟨⟩
    have htext : enclose ((const q).enclosedIn tier) (const q).text = rationalText q := by
      rw [enclosedIn_eq_false hne, enclose_false, text_const_of_nonneg hq.2]
    cases tier with
    | sum =>
      refine prolongs_of_operand hne (n := 1) ?_
      rw [htext, readAs, if_neg hq.1]
      exact .product (derives_fraction hq.1)
    | product =>
      intro fs front hf
      rw [htext, readAs, if_neg hq.1, if_pos ⟨rfl, hq.2⟩]
      exact hf.fraction hq.1
  · exact prolongs_of_tier?_eq_none (writable_const q) (if_neg hq) tier

/-- A chain is an operand of the other tier: a product of a sum as it is, a sum of a product in
    parentheses. -/
theorem exists_derives_operand_of_ne {tier tier' : Tier} {e f : Expr} {k n : Nat}
    (ht : e.tier? = some tier') (hne : tier' ≠ tier)
    (h : Derives scale (.chain tier' k) (ofText e.text) f n) :
    ∃ m, Derives scale (.operand tier) (ofText (enclose (e.enclosedIn tier) e.text)) f m := by
  cases tier with
  | sum =>
    rw [Tier.ne_sum_iff.1 hne] at h
    exact ⟨n, .product h⟩
  | product =>
    rw [Tier.ne_product_iff.1 hne] at ht h
    have henc : e.enclosedIn .product = true := by
      rw [enclosedIn, ht]
      rfl
    rw [henc]
    exact ⟨n + 1, h.enclose.operand .product⟩

/-- The last operand of a difference or a quotient. -/
theorem exists_derives_operand {op : Op} {r : Expr} (hw : r.Writable)
    (hc : op.isCommutative = false) (h : ∀ tier, r.Prolongs scale tier) : ∃ n,
    Derives scale (.operand op.tier) (ofText (enclose (needsParens op .right r) r.text))
      (r.readAs op.tier id) n := by
  have hparens := needsParens_right_iff hc (e := r)
  cases hp : needsParens op .right r with
  | true =>
    obtain ⟨k, n, hd⟩ := (h .sum).alone rfl op.tier
    exact ⟨n + 1, hd.enclose.operand op.tier⟩
  | false =>
    simp only [hp, Bool.false_eq_true, false_iff, not_or] at hparens
    obtain ⟨hsum, hne⟩ := hparens
    rw [enclose_false]
    cases ht : r.tier? with
    | none =>
      obtain ⟨n, hd⟩ := exists_derives_factor hw ht op.tier
      exact ⟨n, hd.operand op.tier⟩
    | some tier =>
      obtain ⟨k, n, hd⟩ := (h tier).alone (enclosedIn_eq_false hsum) op.tier
      have htier : tier ≠ op.tier := fun h => hne (ht.trans (congrArg some h))
      have ho := exists_derives_operand_of_ne ht htier hd
      rwa [enclosedIn_eq_false hsum, enclose_false] at ho

theorem enclosedIn_bin (op : Op) (l r : Expr) : (bin op l r).enclosedIn op.tier = false := by
  cases op <;> rfl

/-- What is written behind a front prolongs the chain. -/
theorem prolongs {e : Expr} (h : e.Writable) (tier : Tier) : e.Prolongs scale tier := by
  induction e generalizing tier with
  | const q => exact prolongs_const q tier
  | mono m => exact prolongs_of_tier?_eq_none h rfl tier
  | bin op l r ihl ihr =>
    obtain ⟨hl, hr⟩ := writable_bin_iff.1 h
    -- in a chain of its own tier, the left operand comes first
    have self : ∀ fs front, Front scale op.tier fs front → ∃ k n, Derives scale (.chain op.tier k)
        (fs ++ ofText (bin op l r).text) ((bin op l r).readAs op.tier front) n := by
      intro fs front hf
      obtain ⟨k, n, hd⟩ := ihl hl op.tier fs front hf
      rw [← needsParens_left] at hd
      have hnext := Front.some hd rfl
      rw [ofText_bin, ← List.append_assoc, List.append_cons]
      cases hc : op.isCommutative with
      | true =>
        have hprol := ihr hr op.tier _ _ hnext
        rwa [← needsParens_right_of_commutative hc, ← readAs_commutative hc rfl] at hprol
      | false =>
        obtain ⟨m, ho⟩ := exists_derives_operand hr hc (ihr hr)
        rw [readAs_not_commutative hc rfl]
        exact hnext.operand ho
    by_cases ht : op.tier = tier
    · subst ht
      rw [Prolongs, enclosedIn_bin]
      exact self
    · obtain ⟨k, n, hd⟩ := self [] id .none
      rw [List.nil_append, readAs_id _ op.tier tier] at hd
      have hne : (bin op l r).tier? ≠ some tier := fun he => ht (Option.some.inj he)
      obtain ⟨m, ho⟩ := exists_derives_operand_of_ne rfl ht hd
      exact prolongs_of_operand hne ho

/-- **What is written is derived, as the regrouped tree.** -/
theorem exists_derives (scale : Nat → Nat) {e : Expr} (h : e.Writable) :
    ∃ k n, Derives scale (.chain .sum k) (ofText e.text) (e.readAs .sum id) n :=
  (prolongs h .sum).alone rfl .sum

end Expr

end OneUnknown
