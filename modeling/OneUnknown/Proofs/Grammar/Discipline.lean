/-
  Positions and levels through a reading, of any tokens and from any place.

  * `Moves c x`: the reading `x` opens no level, as that of an atom.
  * `links_end`, `chain_ends`: where a chain ends, its own levels are closed, and no operation of
    its tier follows.
  * `Cursor.Bounded start c`, where `peak` was `start` at first: no more than one level above the
    limit was ever open.  `Keeps start x`: so it is where the reading `x` ends or fails.
  * `keeps_chain` and its companions follow the recursion of the reader.
  * `Disciplined`: all of it for a construct, in positions of the list of tokens.
-/
import OneUnknown.Proofs.Grammar.Acceptance
import OneUnknown.Proofs.Grammar.Lookahead

namespace OneUnknown.Grammar

/-! ## Readings without levels -/

section
variable {α β : Type}

/-- Wherever the reading ends, as many levels are open as at `c`, and no more were in between. -/
def Moves (c : Cursor) (x : Except Fault (α × Cursor)) : Prop :=
  match x with
  | .error fault => ∃ ts, fault.place = c.moved ts
  | .ok (_, d) => ∃ ts, d = c.moved ts

theorem Moves.bind {c : Cursor} {x : Except Fault (α × Cursor)}
    {g : α × Cursor → Except Fault (β × Cursor)} (h : Moves c x)
    (hg : ∀ a ts, Moves c (g (a, c.moved ts))) : Moves c (x >>= g) := by
  match x, h with
  | .error fault, h => exact h
  | .ok (a, _), ⟨ts, rfl⟩ => exact hg a ts

end

theorem moves_name (c : Cursor) : Moves c ((name c).map Consumed.pair) := by
  by_cases hone : (runText .letter c.rest).length = 1
  · obtain ⟨n, hn⟩ := List.length_eq_one_iff.1 hone
    rw [name_pair_of_eq hn]
    exact ⟨_, rfl⟩
  · rw [name_pair_of_length_ne hone]
    exact ⟨_, rfl⟩

theorem moves_number (c : Cursor) : Moves c ((number c).map Consumed.pair) := by
  cases h : Decimal.read (numberText c.rest) with
  | error e =>
    rw [number_pair_of_error h]
    exact ⟨_, rfl⟩
  | ok q =>
    rw [number_pair_of_ok h]
    exact ⟨_, rfl⟩

theorem moves_scaledName (q : Rat) (c : Cursor) : Moves c (scaledName (q, c)) := by
  unfold scaledName
  split_ifs with hl
  · exact (moves_name c).bind fun n ts => ⟨ts, rfl⟩
  · exact ⟨c.rest, rfl⟩

theorem moves_atom (c : Cursor) : Moves c ((atom c).map Consumed.pair) := by
  rw [atom_pair]
  split_ifs with hl
  · exact (moves_name c).bind fun n ts => ⟨ts, rfl⟩
  · exact (moves_number c).bind fun q ts => moves_scaledName q (c.moved ts)

theorem moves_leaf (c : Cursor) : Moves c ((leaf c).map Consumed.pair) := by
  unfold leaf
  split
  · exact ⟨c.rest, rfl⟩
  · split_ifs with ht
    · exact moves_atom c
    · exact ⟨c.rest, rfl⟩

theorem Cursor.exists_sign_next (c : Cursor) : ∃ ts, c.sign.next = c.moved ts := by
  cases ho : c.operator? .sum with
  | none =>
    rw [sign, ho]
    exact ⟨c.rest, rfl⟩
  | some op =>
    obtain ⟨t, ts, hc, hop, -⟩ := operator?_eq_some_iff.1 ho
    exact ⟨ts, (sign_of_operator hc hop).2⟩

/-! ## Where a construct ends -/

/-- Links end with the levels above `base` closed, and no operation of their tier behind them.
    What no operand has behind it, they do not have either. -/
theorem links_end {tier : Tier} {base : Nat} {p : Kind → Bool} {l a : Expr} {c d : Cursor}
    (hp : ∀ c a d, (operand tier c).map Consumed.pair = .ok (a, d) → Stops p d.rest)
    (hc : Stops p c.rest) (h : (links tier base l c).map Passed.pair = .ok (a, d)) :
    d.depth = base ∧ Stops tier.isOperator d.rest ∧ Stops p d.rest := by
  cases ho : c.operator? tier with
  | none =>
    have hstop := Cursor.operator?_eq_none_iff.1 ho
    cases h.symm.trans (links_pair_of_stops hstop)
    exact ⟨rfl, hstop, hc⟩
  | some op =>
    obtain ⟨t, ts, hct, hop, -⟩ := Cursor.operator?_eq_some_iff.1 ho
    by_cases hlt : c.depth < nestingLimit
    · rw [links_pair_of_cons hct hop hlt] at h
      obtain ⟨⟨r, e⟩, hr, hw⟩ := bind_eq_ok_iff.1 h
      exact links_end hp (hp _ _ _ hr) hw
    · cases h.symm.trans (links_pair_of_limit hct hop hlt)
  termination_by c.rest.length
  decreasing_by exact (Consumed.length_lt_of_pair hr).trans (Cursor.length_moved_lt hct)

theorem chain_ends {tier : Tier} {p : Kind → Bool} {a : Expr} {c d : Cursor}
    (hp : ∀ c a d, (operand tier c).map Consumed.pair = .ok (a, d) → Stops p d.rest)
    (h : (chain tier c).map Consumed.pair = .ok (a, d)) :
    d.depth = c.depth ∧ Stops tier.isOperator d.rest ∧ Stops p d.rest := by
  rw [chain_pair] at h
  obtain ⟨⟨l, e⟩, hl, hw⟩ := bind_eq_ok_iff.1 h
  exact links_end hp (hp _ _ _ hl) hw

theorem product_ends {a : Expr} {c d : Cursor}
    (h : (chain .product c).map Consumed.pair = .ok (a, d)) :
    d.depth = c.depth ∧ Stops Tier.product.isOperator d.rest := by
  obtain ⟨hdepth, hstop, -⟩ := chain_ends (p := fun _ => false) (fun _ _ _ _ _ _ => rfl) h
  exact ⟨hdepth, hstop⟩

theorem sum_ends {a : Expr} {c d : Cursor} (h : (chain .sum c).map Consumed.pair = .ok (a, d)) :
    d.depth = c.depth ∧ ∀ tier : Tier, Stops tier.isOperator d.rest := by
  have hp : ∀ c a d, (operand .sum c).map Consumed.pair = .ok (a, d) →
      Stops Tier.product.isOperator d.rest := by
    intro c a d h
    rw [operand] at h
    exact (product_ends h).2
  obtain ⟨hdepth, hsum, hproduct⟩ := chain_ends hp h
  refine ⟨hdepth, fun tier => ?_⟩
  cases tier with
  | sum => exact hsum
  | product => exact hproduct

theorem closeParens_ends {e a : Expr} {c d : Cursor} (h : closeParens (e, c) = .ok (a, d)) :
    ∃ t ts, c.rest = t :: ts ∧ d = (c.moved ts).ascend := by
  cases hc : c.rest with
  | nil => cases h.symm.trans (closeParens_of_nil hc)
  | cons t ts =>
    rw [closeParens_of_cons hc] at h
    split_ifs at h
    cases h
    exact ⟨t, ts, rfl, rfl⟩

theorem primary_ends {a : Expr} {c d : Cursor} (h : (primary c).map Consumed.pair = .ok (a, d)) :
    d.depth = c.depth := by
  cases ho : c.token? .lparen with
  | none =>
    rw [primary_of_stops (Cursor.token?_eq_none_iff.1 ho)] at h
    have hmoves := moves_leaf c
    rw [h] at hmoves
    obtain ⟨ts, rfl⟩ := hmoves
    rfl
  | some opened =>
    obtain ⟨t, ts, hct, ht, -⟩ := Cursor.token?_eq_some_iff.1 ho
    by_cases hlt : c.depth < nestingLimit
    · rw [primary_pair_of_lparen hct ht hlt] at h
      obtain ⟨⟨e, body⟩, hbody, hclose⟩ := bind_eq_ok_iff.1 h
      obtain ⟨u, us, -, rfl⟩ := closeParens_ends hclose
      -- the level closed last is that of the parenthesis
      have hdepth : body.depth = c.depth + 1 := (sum_ends hbody).1
      show body.depth - 1 = c.depth
      rw [hdepth, Nat.add_sub_cancel]
    · cases h.symm.trans (primary_pair_of_limit hct ht hlt)

theorem factor_ends {a : Expr} {c d : Cursor} (h : (factor c).map Consumed.pair = .ok (a, d)) :
    d.depth = c.depth := by
  rw [factor_pair] at h
  obtain ⟨⟨e, d'⟩, hprimary, hd⟩ := bind_eq_ok_iff.1 h
  cases hd
  obtain ⟨ts, hsign⟩ := c.exists_sign_next
  rw [primary_ends hprimary, hsign]
  rfl

theorem operand_ends {tier : Tier} {a : Expr} {c d : Cursor}
    (h : (operand tier c).map Consumed.pair = .ok (a, d)) : d.depth = c.depth := by
  cases tier with
  | sum =>
    rw [operand] at h
    exact (product_ends h).1
  | product =>
    rw [operand] at h
    exact factor_ends h

/-! ## Levels open at any time -/

namespace Cursor

/-- Since `peak` was `start`, it was at least the number of levels open and at most one above the
    limit. -/
structure Bounded (start : Nat) (c : Cursor) : Prop where
  start_le : start ≤ c.peak
  depth_le : c.depth ≤ c.peak
  peak_le : c.peak ≤ nestingLimit + 1

namespace Bounded

variable {start : Nat} {c : Cursor}

theorem moved (h : c.Bounded start) (ts : List Token) : (c.moved ts).Bounded start :=
  ⟨h.start_le, h.depth_le, h.peak_le⟩

theorem ascend (h : c.Bounded start) : c.ascend.Bounded start :=
  ⟨h.start_le, (Nat.sub_le _ _).trans h.depth_le, h.peak_le⟩

theorem backTo {base : Nat} (h : c.Bounded start) (hb : base ≤ c.depth) :
    (c.backTo base).Bounded start :=
  ⟨h.start_le, hb.trans h.depth_le, h.peak_le⟩

/-- The limit is checked after the level is counted, so one more than it may be open for once. -/
theorem deeper (h : c.Bounded start) (hd : c.depth ≤ nestingLimit) : c.deeper.Bounded start :=
  ⟨h.start_le.trans (Nat.le_max_left _ _), Nat.le_max_right _ _,
    Nat.max_le.2 ⟨h.peak_le, Nat.succ_le_succ hd⟩⟩

end Bounded

end Cursor

section
variable {α β : Type} {start : Nat}

/-- Wherever the reading ends, by a value or by an error, its levels were bounded. -/
def Keeps (start : Nat) (x : Except Fault (α × Cursor)) : Prop :=
  match x with
  | .error fault => fault.place.Bounded start
  | .ok (_, d) => d.Bounded start

theorem Keeps.bind {x : Except Fault (α × Cursor)} {g : α × Cursor → Except Fault (β × Cursor)}
    (h : Keeps start x) (hg : ∀ a d, x = .ok (a, d) → d.Bounded start → Keeps start (g (a, d))) :
    Keeps start (x >>= g) := by
  match x, h with
  | .error fault, h => exact h
  | .ok (a, d), h => exact hg a d rfl h

theorem Moves.keeps {c : Cursor} {x : Except Fault (α × Cursor)} (h : Moves c x)
    (hc : c.Bounded start) : Keeps start x := by
  match x, h with
  | .error fault, ⟨ts, hts⟩ =>
    show fault.place.Bounded start
    rw [hts]
    exact hc.moved ts
  | .ok (a, _), ⟨ts, rfl⟩ => exact hc.moved ts

end

theorem keeps_closeParens {start : Nat} {e : Expr} {c : Cursor} (hc : c.Bounded start) :
    Keeps start (closeParens (e, c)) := by
  cases hr : c.rest with
  | nil =>
    rw [closeParens_of_nil hr]
    exact hc
  | cons t ts =>
    rw [closeParens_of_cons hr]
    split_ifs
    · exact (hc.moved ts).ascend
    · exact hc

mutual

/-- **A chain never has too many levels open.** -/
theorem keeps_chain {start : Nat} (tier : Tier) {c : Cursor} (hc : c.Bounded start)
    (hd : c.depth ≤ nestingLimit) : Keeps start ((chain tier c).map Consumed.pair) := by
  rw [chain_pair]
  refine (keeps_operand tier hc hd).bind fun l d hl hb => ?_
  have hdepth : d.depth = c.depth := operand_ends hl
  exact keeps_links tier l hb (hdepth.trans_le hd) hdepth.ge
  termination_by (c.rest.length, tier.rank + 1)
  decreasing_by
    · exact Prod.Lex.right _ (Nat.lt_succ_self _)
    · exact Prod.Lex.left _ _ (Consumed.length_lt_of_pair hl)

theorem keeps_operand {start : Nat} (tier : Tier) {c : Cursor} (hc : c.Bounded start)
    (hd : c.depth ≤ nestingLimit) : Keeps start ((operand tier c).map Consumed.pair) := by
  cases tier with
  | sum => simpa only [operand] using keeps_chain .product hc hd
  | product => simpa only [operand] using keeps_factor hc hd
  termination_by (c.rest.length, tier.rank)
  decreasing_by
    · exact Prod.Lex.right _ (by decide)
    · exact Prod.Lex.right _ (by decide)

theorem keeps_links {start : Nat} (tier : Tier) {base : Nat} (l : Expr) {c : Cursor}
    (hc : c.Bounded start) (hd : c.depth ≤ nestingLimit) (hb : base ≤ c.depth) :
    Keeps start ((links tier base l c).map Passed.pair) := by
  cases ho : c.operator? tier with
  | none =>
    rw [links_pair_of_stops (Cursor.operator?_eq_none_iff.1 ho)]
    exact hc.backTo hb
  | some op =>
    obtain ⟨t, ts, hct, hop, -⟩ := Cursor.operator?_eq_some_iff.1 ho
    -- the level is counted in both cases, and refused only then
    have hinner : (c.moved ts).deeper.Bounded start := (hc.moved ts).deeper hd
    by_cases hlt : c.depth < nestingLimit
    · rw [links_pair_of_cons hct hop hlt]
      refine (keeps_operand tier hinner hlt).bind fun r d hr hbd => ?_
      have hdepth : d.depth = c.depth + 1 := operand_ends hr
      exact keeps_links tier _ hbd (hdepth.trans_le hlt) ((Nat.le_succ_of_le hb).trans hdepth.ge)
    · rw [links_pair_of_limit hct hop hlt]
      exact hinner
  termination_by (c.rest.length, 0)
  decreasing_by
    · exact Prod.Lex.left _ _ (Cursor.length_moved_lt hct)
    · exact Prod.Lex.left _ _ ((Consumed.length_lt_of_pair hr).trans (Cursor.length_moved_lt hct))

theorem keeps_factor {start : Nat} {c : Cursor} (hc : c.Bounded start)
    (hd : c.depth ≤ nestingLimit) : Keeps start ((factor c).map Consumed.pair) := by
  obtain ⟨ts, hsign⟩ := c.exists_sign_next
  have hnext : c.sign.next.Bounded start ∧ c.sign.next.depth ≤ nestingLimit := by
    rw [hsign]
    exact ⟨hc.moved ts, hd⟩
  rw [factor_pair]
  exact (keeps_primary hnext.1 hnext.2).bind fun e d _ hbd => hbd
  termination_by (c.rest.length, 1)
  decreasing_by exact Prod.Lex.right' _ c.sign.noLonger (by decide)

theorem keeps_primary {start : Nat} {c : Cursor} (hc : c.Bounded start)
    (hd : c.depth ≤ nestingLimit) : Keeps start ((primary c).map Consumed.pair) := by
  cases ho : c.token? .lparen with
  | none =>
    rw [primary_of_stops (Cursor.token?_eq_none_iff.1 ho)]
    exact (moves_leaf c).keeps hc
  | some opened =>
    obtain ⟨t, ts, hct, ht, -⟩ := Cursor.token?_eq_some_iff.1 ho
    have hinner : (c.moved ts).deeper.Bounded start := (hc.moved ts).deeper hd
    by_cases hlt : c.depth < nestingLimit
    · rw [primary_pair_of_lparen hct ht hlt]
      exact (keeps_chain .sum hinner hlt).bind fun e d _ hbd => keeps_closeParens hbd
    · rw [primary_pair_of_limit hct ht hlt]
      exact hinner
  termination_by (c.rest.length, 0)
  decreasing_by exact Prod.Lex.left _ _ (Cursor.length_moved_lt hct)

end

/-! ## Positions -/

/-- Position `pos` of the tokens `ts` with `depth` levels open, and no more so far. -/
def Cursor.atPosition (ts : List Token) (pos depth : Nat) : Cursor :=
  ⟨ts.drop pos, depth, depth⟩

/-- Behind the tokens `us`, which start at `pos`, is a later position of the same list. -/
theorem exists_position {ts us rest : List Token} {pos : Nat} (h : ts.drop pos = us ++ rest)
    (hne : us ≠ []) : ∃ pos', pos < pos' ∧ pos' ≤ ts.length ∧ ts.drop pos' = rest ∧
      ∀ vs, (ts.take pos' ++ vs).drop pos = us ++ vs := by
  have hpos := List.length_pos_iff.2 hne
  have hlen := congrArg List.length h
  rw [List.length_drop, List.length_append] at hlen
  have htake : ts.take (pos + us.length) = ts.take pos ++ us := by
    rw [List.take_add, h, List.take_left]
  refine ⟨pos + us.length, by omega, by omega, ?_, fun vs => ?_⟩
  · rw [← List.drop_drop, h, List.drop_left]
  · rw [htake, List.append_assoc]
    exact List.drop_left' (List.length_take_of_le (by omega))

/-- What reading a construct from position `pos` does.  Where it succeeds, as many levels are open
    as before, and it ends at a later position, whose token cannot continue the construct: it is
    none of `kinds`, and whatever stands behind it the same is read.  Where it succeeds and where
    it fails, the levels were bounded. -/
def Disciplined (kinds : List Kind) (read : (c : Cursor) → Except Fault (Consumed Expr c))
    (ts : List Token) (pos depth : Nat) : Prop :=
  match read (.atPosition ts pos depth) with
  | .error fault => fault.place.Bounded depth
  | .ok r => r.next.Bounded depth ∧ r.next.depth = depth ∧
    ∃ pos', pos < pos' ∧ pos' ≤ ts.length ∧ r.next.rest = ts.drop pos' ∧
      ∀ t, ts[pos']? = some t → t.kind ∉ kinds ∧
        ∀ us, (read (.atPosition (ts.take pos' ++ t :: us) pos depth)).map Consumed.pair =
          .ok (r.value, r.next.moved (t :: us))

/-- The level of a parenthesis at `c` is still open when the parenthesis is closed. -/
def Balanced (c : Cursor) : Prop :=
  ∀ opened inner body closed, c.token? .lparen = some opened → opened.next.descend = .ok inner →
    chain .sum inner.val = .ok body → body.next.token? .rparen = some closed →
    0 < closed.next.depth ∧ closed.next.ascend.depth = c.depth

theorem balanced (c : Cursor) : Balanced c := by
  intro opened inner body closed ho hi hb hc
  obtain ⟨t, ts, -, -, hopened⟩ := Cursor.token?_eq_some_iff.1 ho
  obtain ⟨u, us, -, -, hclosed⟩ := Cursor.token?_eq_some_iff.1 hc
  obtain ⟨-, hinner⟩ := Cursor.descend_eq_ok_iff.1 hi
  have hbody : (chain .sum inner.val).map Consumed.pair = .ok (body.value, body.next) := by
    rw [hb]
    rfl
  have hdepth : closed.next.depth = c.depth + 1 := by
    rw [hclosed]
    show body.next.depth = c.depth + 1
    rw [(sum_ends hbody).1, hinner, hopened]
    rfl
  refine ⟨by omega, ?_⟩
  show closed.next.depth - 1 = c.depth
  rw [hdepth, Nat.add_sub_cancel]

theorem Stops.kind_not_mem {p : Kind → Bool} {kinds : List Kind} {us : List Token} {t : Token}
    (h : Stops p us) (hp : ∀ k ∈ kinds, p k = true) (ht : t ∈ us.head?) : t.kind ∉ kinds := by
  intro hk
  have hstop := h t ht
  rw [hp _ hk] at hstop
  cases hstop

/-- A reading that looks one token ahead, closes its levels and keeps them bounded. -/
theorem disciplined_of {kinds : List Kind} {read : (c : Cursor) → Except Fault (Consumed Expr c)}
    {ts : List Token} {pos depth : Nat} (hdepth : depth ≤ nestingLimit)
    (hlocal : ∀ c : Cursor, Local c.rest fun us => (read (c.moved us)).map Consumed.pair)
    (hkeeps : ∀ c : Cursor, c.Bounded depth → c.depth ≤ nestingLimit →
      Keeps depth ((read c).map Consumed.pair))
    (hends : ∀ c a d, (read c).map Consumed.pair = .ok (a, d) →
      d.depth = c.depth ∧ ∀ t ∈ d.rest.head?, t.kind ∉ kinds) :
    Disciplined kinds read ts pos depth := by
  have hbounded : (Cursor.atPosition ts pos depth).Bounded depth :=
    ⟨le_rfl, le_rfl, Nat.le_succ_of_le hdepth⟩
  have hk := hkeeps _ hbounded hdepth
  unfold Disciplined
  cases hr : read (.atPosition ts pos depth) with
  | error fault =>
    rw [hr] at hk
    exact hk
  | ok r =>
    rw [hr] at hk
    have hpair : (read (.atPosition ts pos depth)).map Consumed.pair = .ok (r.value, r.next) := by
      rw [hr]
      rfl
    obtain ⟨hback, hstop⟩ := hends _ _ _ hpair
    obtain ⟨us, hus, hext⟩ := hlocal (.atPosition ts pos depth) _ _ hpair
    have hne : us ≠ [] := by
      rintro rfl
      have hlt := r.shorter
      rw [hus, List.nil_append] at hlt
      exact Nat.lt_irrefl _ hlt
    obtain ⟨pos', hlt, hle, hdrop, htake⟩ := exists_position hus hne
    refine ⟨hk, hback, pos', hlt, hle, hdrop.symm, fun t ht => ?_⟩
    have hhead : r.next.rest.head? = some t := by
      rw [← hdrop, List.head?_drop, ht]
    refine ⟨hstop t hhead, fun vs => ?_⟩
    have hplace : Cursor.atPosition (ts.take pos' ++ t :: vs) pos depth =
        (Cursor.atPosition ts pos depth).moved (us ++ t :: vs) :=
      congrArg (Cursor.mk · depth depth) (htake (t :: vs))
    rw [hplace]
    exact hext (t :: vs) hhead.symm

/-- **Positions and levels, for any tokens and from any place.**  Behind a sum stands no operation,
    behind a product none of its own tier; no parenthesis is closed that is not open. -/
theorem reading_discipline {ts : List Token} {pos depth : Nat} (hdepth : depth ≤ nestingLimit) :
    Disciplined [.plus, .minus, .times, .divide] (chain .sum) ts pos depth ∧
    Disciplined [.times, .divide] (chain .product) ts pos depth ∧
    Disciplined [] factor ts pos depth ∧
    ∀ c, Balanced c := by
  refine ⟨?_, ?_, ?_, balanced⟩
  · refine disciplined_of hdepth (local_chain .sum) (fun c => keeps_chain .sum) ?_
    intro c a d h
    obtain ⟨hback, hstop⟩ := sum_ends h
    refine ⟨hback, fun t ht => ?_⟩
    have hsum : t.kind ∉ [Kind.plus, .minus] := (hstop .sum).kind_not_mem (by decide) ht
    have hproduct : t.kind ∉ [Kind.times, .divide] := (hstop .product).kind_not_mem (by decide) ht
    exact List.not_mem_append hsum hproduct
  · refine disciplined_of hdepth (local_chain .product) (fun c => keeps_chain .product) ?_
    intro c a d h
    obtain ⟨hback, hstop⟩ := product_ends h
    exact ⟨hback, fun t => hstop.kind_not_mem (by decide)⟩
  · refine disciplined_of hdepth local_factor (fun c => keeps_factor) ?_
    intro c a d h
    exact ⟨factor_ends h, fun t _ => List.not_mem_nil⟩

/-- `(-x*(2-y))` -/
def enclosedProduct : List Token :=
  ⟨.lparen, '('⟩ :: signedProduct ++ [⟨.rparen, ')'⟩]

/-- Read from inside, the sum ends at the parenthesis that closes it. -/
theorem reading_discipline_enclosedProduct : 1 ≤ nestingLimit ∧
    Yields (chain .sum (.atPosition enclosedProduct 1 1))
      (.bin .mul (.mono ⟨'x', -1⟩) (.bin .sub (.const 2) (.unknown 'y'))) [⟨.rparen, ')'⟩] ∧
    Disciplined [.plus, .minus, .times, .divide] (chain .sum) enclosedProduct 1 1 := by
  have hp : ∀ t ∈ signedProduct, t.Proper := by decide
  have hstop : Stops Tier.sum.goesOn [⟨.rparen, ')'⟩] ∧
      Stops Tier.sum.isOperator [⟨.rparen, ')'⟩] := stops_rparen rfl
  have hread := readsTo_of_derives (c := .atPosition enclosedProduct 1 1) derives_signedProduct hp
    rfl hstop.1 (by decide)
  have hlimit : 1 ≤ nestingLimit := by decide
  exact ⟨hlimit, hread.close hstop.2, (reading_discipline hlimit).1⟩

end OneUnknown.Grammar
