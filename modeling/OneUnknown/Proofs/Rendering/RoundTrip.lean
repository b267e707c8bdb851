/-
  Reading what is written.

  * `Expr.read` and `Equation.read`: what a text is read as, one side or both.
  * `Expr.exists_read_render`: a writable expression is read as its regrouped tree, unless it needs
    too many levels.
  * Hence a canonical expression is read as itself (`Canonical.read_render`), and an equation as one
    with the same result (`sameResult_of_read_render`).
-/
import OneUnknown.Proofs.Grammar.Vocabulary
import OneUnknown.Proofs.Rendering.Derivation

namespace OneUnknown

open Grammar Token

namespace Expr

/-! ## One side -/

/-- What the text of one side of an equation is read as. -/
def read (text : String) : Except Error Expr := do
  ofTokens (← scan text.toList)

theorem ofText_ne_nil {e : Expr} (h : e.Writable) : ofText e.text ≠ [] := by
  obtain ⟨k, n, hd⟩ := exists_derives Decimal.tenTo h
  exact List.ne_nil_of_length_pos (Nat.zero_lt_of_lt hd.lt_length)

theorem scan_render {e : Expr} (h : e.Writable) :
    scan e.render.toList = .ok (ofText e.text) := by
  rw [render, String.toList_ofList]
  exact scan_eq_ok_iff.2 ⟨scannable_of_mem_text h, rfl, ofText_ne_nil h⟩

/-- **A written expression is read as the regrouped tree**, or it is too deep. -/
theorem exists_read_render {e : Expr} (h : e.Writable) : ∃ n, n < (ofText e.text).length ∧
    read e.render =
      if n ≤ nestingLimit then .ok (e.readAs .sum id) else .error (.tooDeep nestingLimit) := by
  obtain ⟨k, n, hd⟩ := exists_derives Decimal.tenTo h
  rw [read, scan_render h]
  exact ⟨n, hd.lt_length, ofTokens_of_derives hd fun t => proper_of_mem_ofText⟩

/-- **A canonical expression is read as itself**, unless its many tokens are too deep. -/
theorem Canonical.read_render {e : Expr} (h : e.Canonical) :
    read e.render = .ok e ∨
      read e.render = .error (.tooDeep nestingLimit) ∧ nestingLimit < (ofText e.text).length := by
  obtain ⟨n, hlt, hread⟩ := exists_read_render h.writable
  rw [h.readAs_eq] at hread
  split_ifs at hread with hn
  · exact .inl hread
  · exact .inr ⟨hread, by omega⟩

/-- `2 - -3x / ((-4) / (x - 1))` -/
def quotients : Expr :=
  .bin .sub (.const 2) (.bin .div (.mono ⟨'x', -3⟩)
    (.bin .div (.const (-4)) (.bin .sub (.unknown 'x') (.const 1))))

theorem read_render_quotients : quotients.Canonical ∧
    quotients.render = "2 - -3x / ((-4) / (x - 1))" ∧ read quotients.render = .ok quotients := by
  have hc : quotients.Canonical := by
    have hdiff : (bin .sub (.unknown 'x') (.const 1)).Canonical :=
      .bin (.mono rfl rfl) (.const rfl) (by rintro ⟨⟩)
    have hquot : (bin .div (.const (-4)) (.bin .sub (.unknown 'x') (.const 1))).Canonical :=
      .bin (.const rfl) hdiff (by rintro ⟨⟩)
    exact .bin (.const rfl) (.bin (.mono rfl rfl) hquot (by rintro ⟨⟩)) (by rintro ⟨⟩)
  refine ⟨hc, by decide +kernel, ?_⟩
  rcases hc.read_render with h | ⟨-, h⟩
  · exact h
  · exact absurd h (by decide +kernel)

end Expr

namespace Equation

/-! ## Both sides -/

/-- What the text of an equation is read as. -/
def read (text : String) : Except Error Equation := do
  ofTokens (← scan text.toList)

/-- Both sides regrouped. -/
def readAs (eq : Equation) : Equation :=
  ⟨eq.left.readAs .sum id, eq.right.readAs .sum id⟩

theorem ofText_text (eq : Equation) :
    ofText eq.text = ofText eq.left.text ++ ⟨.equal, '='⟩ :: ofText eq.right.text := by
  rw [text, ofText_append, ofText_blank rfl, ofText_cons (t := ⟨.equal, '='⟩) rfl, ofText_blank rfl]

theorem scan_render {eq : Equation} (hl : eq.left.Writable) (hr : eq.right.Writable) :
    scan eq.render.toList = .ok (ofText eq.text) := by
  rw [render, String.toList_ofList]
  refine scan_eq_ok_iff.2 ⟨?_, rfl, by simp [ofText_text]⟩
  intro c hc
  simp only [text, List.mem_append, List.mem_cons] at hc
  rcases hc with hc | rfl | rfl | rfl | hc
  · exact Expr.scannable_of_mem_text hl c hc
  · exact .inl rfl
  · exact .inr ⟨.equal, rfl⟩
  · exact .inl rfl
  · exact Expr.scannable_of_mem_text hr c hc

/-- The equals sign between two derivations is the only one. -/
theorem ofTokens_of_derives {i j : Nat} {ts us : List Token} {t : Token} {l r : Expr} {n m : Nat}
    (hl : Derives Decimal.tenTo (.chain .sum i) ts l n) (ht : t.kind = .equal)
    (hr : Derives Decimal.tenTo (.chain .sum j) us r m) :
    ofTokens (ts ++ t :: us) = do return ⟨← Expr.ofTokens ts, ← Expr.ofTokens us⟩ := by
  rw [ofTokens_of_cut hl.kind_ne_equal ht, if_neg (not_any_equal_iff.2 hr.kind_ne_equal)]

/-- **A written equation is read as the regrouped one**, or it is too deep. -/
theorem exists_read_render {eq : Equation} (hl : eq.left.Writable) (hr : eq.right.Writable) :
    ∃ n, n < (ofText eq.text).length ∧ read eq.render =
      if n ≤ nestingLimit then .ok eq.readAs else .error (.tooDeep nestingLimit) := by
  obtain ⟨i, n, hdl⟩ := Expr.exists_derives Decimal.tenTo hl
  obtain ⟨j, m, hdr⟩ := Expr.exists_derives Decimal.tenTo hr
  have hleft := Expr.ofTokens_of_derives hdl fun t => proper_of_mem_ofText
  have hright := Expr.ofTokens_of_derives hdr fun t => proper_of_mem_ofText
  have hn := hdl.lt_length
  have hm := hdr.lt_length
  refine ⟨max n m, ?_, ?_⟩
  · rw [ofText_text, List.length_append, List.length_cons]
    omega
  · have hscan : read eq.render = ofTokens (ofText eq.text) := by
      rw [read, scan_render hl hr]
      rfl
    rw [hscan, ofText_text, ofTokens_of_derives hdl rfl hdr, hleft, hright]
    by_cases hnl : n ≤ nestingLimit
    · by_cases hml : m ≤ nestingLimit
      · rw [if_pos hnl, if_pos hml, if_pos (Nat.max_le.2 ⟨hnl, hml⟩)]
        rfl
      · rw [if_pos hnl, if_neg hml, if_neg (fun h => hml (Nat.max_le.1 h).2)]
        rfl
    · rw [if_neg hnl, if_neg (fun h => hnl (Nat.max_le.1 h).1)]
      rfl

/-- A text with few tokens is not too deep. -/
theorem read_render_eq_ok {eq : Equation} (hl : eq.left.Writable) (hr : eq.right.Writable)
    (hn : (ofText eq.text).length ≤ nestingLimit) : read eq.render = .ok eq.readAs := by
  obtain ⟨n, hlt, hread⟩ := exists_read_render hl hr
  rwa [if_pos (by omega)] at hread

/-- **Reading what is written keeps the result**, unless the many tokens are too deep.  The sides
    of the equation that is read have the same values as those that were written, and solving it
    gives the same solution or an error of the same kind. -/
theorem sameResult_of_read_render {eq : Equation} (hl : eq.left.Writable)
    (hr : eq.right.Writable) :
    (∃ eq', read eq.render = .ok eq' ∧
      (∀ env, eq'.left.value? env = eq.left.value? env ∧
        eq'.right.value? env = eq.right.value? env) ∧
      ∀ passes, 2 ≤ passes → SameResult (eq.solve passes) (eq'.solve passes)) ∨
    (read eq.render = .error (.tooDeep nestingLimit) ∧
      nestingLimit < (ofText eq.text).length) := by
  obtain ⟨n, hlt, hread⟩ := exists_read_render hl hr
  have hleft : Expr.Agree eq.left eq.readAs.left := Expr.agree_readAs .none
  have hright : Expr.Agree eq.right eq.readAs.right := Expr.agree_readAs .none
  split_ifs at hread with hn
  · exact .inl ⟨_, hread, fun env => ⟨hleft.value? env, hright.value? env⟩,
      fun passes hp => sameResult_solve hp hleft hright⟩
  · exact .inr ⟨hread, by omega⟩

/-- `3x * 1/2 = (-1/3) - (-1x + 2)`, of which the left side is read as `(3x * 1) / 2`. -/
def halves : Equation where
  left := .bin .mul (.mono ⟨'x', 3⟩) (.const (1 / 2))
  right := .bin .sub (.const (-1 / 3)) (.bin .add (.mono ⟨'x', -1⟩) (.const 2))

theorem writable_halves : halves.left.Writable ∧ halves.right.Writable :=
  ⟨Expr.writable_bin_iff.2 ⟨Expr.writable_mono_iff.2 ⟨rfl, rfl⟩, Expr.writable_const _⟩,
    Expr.writable_bin_iff.2 ⟨Expr.writable_const _,
      Expr.writable_bin_iff.2 ⟨Expr.writable_mono_iff.2 ⟨rfl, rfl⟩, Expr.writable_const _⟩⟩⟩

theorem sameResult_of_read_render_halves : halves.left.Writable ∧ halves.right.Writable ∧
    2 ≤ 2 ∧ halves.render = "3x * 1/2 = (-1/3) - (-1x + 2)" ∧
    ∃ eq', read halves.render = .ok eq' ∧ SameResult (halves.solve 2) (eq'.solve 2) := by
  obtain ⟨hl, hr⟩ := writable_halves
  refine ⟨hl, hr, Nat.le_refl 2, by decide +kernel, ?_⟩
  rcases sameResult_of_read_render hl hr with ⟨eq', h, -, hsame⟩ | ⟨-, h⟩
  · exact ⟨eq', h, hsame 2 (Nat.le_refl 2)⟩
  · exact absurd h (by decide +kernel)

end Equation

end OneUnknown
