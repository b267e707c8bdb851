/-
  The tokens that a construct is made of.

  * None of them is an equals sign (`Derives.kind_ne_equal`): an equation is cut where its sides
    meet.
  * There is a letter among them for every unknown (`Derives.exists_letter`).
  * They outnumber the levels that are needed (`Derives.lt_length`): what is short is not too deep.
-/
import OneUnknown.Proofs.Grammar.Height

namespace OneUnknown

theorem Expr.occurrences_negate (e : Expr) : e.negate.occurrences = e.occurrences := by
  cases e <;> rfl

namespace Grammar

variable {scale : Nat → Nat}

theorem Number.kind_ne_equal {ts : List Token} {q : Rat} (h : Number scale ts q) :
    ∀ t ∈ ts, t.kind ≠ .equal := by
  intro t ht hk
  have hn := h.isNumeral_of_mem t ht
  rw [hk] at hn
  cases hn

theorem Tier.ne_equal_of_op? {tier : Tier} {k : Kind} {op : Op} (h : tier.op? k = some op) :
    k ≠ .equal := by
  rintro rfl
  cases tier <;> cases h

/-- No equals sign is part of a construct. -/
theorem Derives.kind_ne_equal {k : Construct} {ts : List Token} {e : Expr} {n : Nat}
    (h : Derives scale k ts e n) : ∀ t ∈ ts, t.kind ≠ .equal := by
  induction h with
  | number hq => exact hq.kind_ne_equal
  | scaled hq ht =>
    intro u hu
    rcases List.mem_append.1 hu with hu | hu
    · exact hq.kind_ne_equal u hu
    · rw [List.mem_singleton.1 hu, ht]; decide
  | letter ht =>
    intro u hu
    rw [List.mem_singleton.1 hu, ht]; decide
  | @parens k o ts c e n ho _ hc ih =>
    intro u hu
    rw [List.mem_append, List.mem_cons, List.mem_singleton] at hu
    rcases hu with (rfl | hu) | rfl
    · rw [ho]; decide
    · exact ih u hu
    · rw [hc]; decide
  | plus ht _ ih | minus ht _ ih =>
    intro u hu
    rcases List.mem_cons.1 hu with rfl | hu
    · rw [ht]; decide
    · exact ih u hu
  | link _ hop _ ihl ihr =>
    intro u hu
    rw [List.mem_append, List.mem_cons] at hu
    rcases hu with hu | rfl | hu
    · exact ihl u hu
    · exact Tier.ne_equal_of_op? hop
    · exact ihr u hu
  | atom _ ih | unsigned _ ih | product _ ih | factor _ ih | single _ ih => exact ih

/-- Every unknown is a letter among the tokens. -/
theorem Derives.exists_letter {k : Construct} {ts : List Token} {e : Expr} {n : Nat}
    (h : Derives scale k ts e n) {c : Char} (hc : c ∈ e.occurrences) :
    ∃ t ∈ ts, t.kind = .letter ∧ t.lexeme = c := by
  induction h with
  | number => cases hc
  | @scaled ts q t _ ht =>
    exact ⟨t, List.mem_append_right _ List.mem_cons_self, ht, (List.mem_singleton.1 hc).symm⟩
  | @letter t ht => exact ⟨t, List.mem_cons_self, ht, (List.mem_singleton.1 hc).symm⟩
  | parens _ _ _ ih =>
    obtain ⟨t, hmem, ht⟩ := ih hc
    exact ⟨t, List.mem_append_left _ (List.mem_cons_of_mem _ hmem), ht⟩
  | plus _ _ ih =>
    obtain ⟨t, hmem, ht⟩ := ih hc
    exact ⟨t, List.mem_cons_of_mem _ hmem, ht⟩
  | minus _ _ ih =>
    rw [Expr.occurrences_negate] at hc
    obtain ⟨t, hmem, ht⟩ := ih hc
    exact ⟨t, List.mem_cons_of_mem _ hmem, ht⟩
  | link _ _ _ ihl ihr =>
    rcases List.mem_append.1 hc with hc | hc
    · obtain ⟨t, hmem, ht⟩ := ihl hc
      exact ⟨t, List.mem_append_left _ hmem, ht⟩
    · obtain ⟨t, hmem, ht⟩ := ihr hc
      exact ⟨t, List.mem_append_right _ (List.mem_cons_of_mem _ hmem), ht⟩
  | atom _ ih | unsigned _ ih | product _ ih | factor _ ih | single _ ih => exact ih hc

/-- **A construct has more tokens than it needs levels.** -/
theorem Derives.lt_length {k : Construct} {ts : List Token} {e : Expr} {n : Nat}
    (h : Derives scale k ts e n) : n < ts.length := by
  induction h with
  | number hq =>
    obtain ⟨t, us, rfl, -⟩ := hq.exists_cons
    exact Nat.succ_pos _
  | scaled | letter => simp
  | parens _ _ _ ih =>
    simp only [List.length_append, List.length_cons, List.length_nil]
    omega
  | plus _ _ ih | minus _ _ ih =>
    rw [List.length_cons]
    omega
  | link hl _ _ ihl ihr =>
    -- each operation is a token, too
    have hk := hl.operations_le
    rw [List.length_append, List.length_cons]
    omega
  | atom _ ih | unsigned _ ih | product _ ih | factor _ ih | single _ ih => exact ih

end Grammar

end OneUnknown
