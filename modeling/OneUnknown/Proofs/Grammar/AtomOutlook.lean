/-
  What reading a number, a name or an atom says of more tokens behind.

  * A run or a number behind which something stands is not changed by what comes behind that; one
    that reaches the end may only grow.
  * So a name of several letters is never one, and a number that fails may become one only if it
    reaches the end.
  * `outlook_leaf`, and `outlook_of_nil` where nothing is left: a letter is enough.
-/
import OneUnknown.Proofs.Grammar.Outlook
import OneUnknown.Proofs.Grammar.Readings

namespace OneUnknown.Grammar

/-! ## Runs with more tokens behind -/

section
variable {ts : List Token}

theorem Stops.append {p : Kind → Bool} (h : Stops p ts) (hne : ts ≠ []) (us : List Token) :
    Stops p (ts ++ us) := by
  rw [Stops, List.head?_append_of_ne_nil _ hne]
  exact h

theorem stops_afterRun (k : Kind) (ts : List Token) : Stops (decide <| · = k) (afterRun k ts) := by
  intro t ht
  have hk := List.head?_dropWhile_not (fun t : Token => decide (t.kind = k)) ts
  rw [← afterRun, Option.mem_def.1 ht] at hk
  simpa using hk

/-- A run that does not reach the end does not grow. -/
theorem run_append {k : Kind} (h : afterRun k ts ≠ []) (us : List Token) :
    runText k (ts ++ us) = runText k ts ∧ afterRun k (ts ++ us) = afterRun k ts ++ us := by
  obtain ⟨ds, hts, hd, htext⟩ := exists_run k ts
  have hstop := (stops_afterRun k ts).append h us
  have heq : ts ++ us = ds ++ (afterRun k ts ++ us) := by rw [← List.append_assoc, ← hts]
  rw [heq, runText_append hd hstop, afterRun_append hd hstop]
  exact ⟨htext.symm, rfl⟩

/-- A run that reaches the end may only grow. -/
theorem length_runText_le (k : Kind) (us : List Token) :
    (runText k ts).length ≤ (runText k (ts ++ us)).length := by
  rw [runText, runText, List.length_map, List.length_map, List.takeWhile_append]
  split_ifs
  · exact (List.takeWhile_prefix _).length_le.trans (List.length_append ▸ Nat.le_add_right _ _)
  · exact le_rfl

theorem length_runText_pos {k : Kind} {c : Cursor} (h : c.at? k = true) :
    0 < (runText k c.rest).length := by
  cases hc : c.rest with
  | nil =>
    rw [Cursor.at?, hc] at h
    cases h
  | cons t us =>
    have ht : t.kind = k := (at?_cons_iff hc).1 h
    rw [runText, List.takeWhile_cons_of_pos (by simpa using ht)]
    exact Nat.succ_pos _

/-- A number behind which something stands does not grow. -/
theorem number_append (h : afterNumber ts ≠ []) (us : List Token) :
    numberText (ts ++ us) = numberText ts ∧ afterNumber (ts ++ us) = afterNumber ts ++ us := by
  have hne : afterRun .digit ts ≠ [] := by
    intro h0
    rw [afterNumber, h0] at h
    exact h rfl
  obtain ⟨htext, hafter⟩ := run_append hne us
  obtain ⟨t, rest, hr⟩ := List.exists_cons_of_ne_nil hne
  rw [afterNumber, hr] at h
  rw [numberText, afterNumber, numberText, afterNumber, htext, hafter, hr]
  by_cases hdot : t.kind = .dot
  · simp only [hdot, if_true] at h
    obtain ⟨htext', hafter'⟩ := run_append h us
    simp only [List.cons_append, hdot, if_true, htext', hafter', and_self]
  · simp only [List.cons_append, hdot, if_false, and_self]

/-- A number is made of digits and points. -/
theorem exists_numerals (ts : List Token) :
    ∃ ds, ts = ds ++ afterNumber ts ∧ ∀ t ∈ ds, isNumeral t.kind = true := by
  obtain ⟨ds, hts, hd, -⟩ := exists_run .digit ts
  have hd' : ∀ t ∈ ds, isNumeral t.kind = true := by
    intro t ht
    rw [hd t ht]
    rfl
  rw [afterNumber]
  cases hr : afterRun .digit ts with
  | nil =>
    rw [hr] at hts
    exact ⟨ds, hts, hd'⟩
  | cons p rest =>
    rw [hr] at hts
    by_cases hdot : p.kind = .dot
    · obtain ⟨fs, hrest, hf, -⟩ := exists_run .digit rest
      simp only [hdot, if_true]
      refine ⟨ds ++ p :: fs, ?_, ?_⟩
      · rw [List.append_assoc, List.cons_append, ← hrest]
        exact hts
      · rw [List.forall_mem_append, List.forall_mem_cons]
        exact ⟨hd', by rw [hdot]; rfl, fun t ht => by rw [hf t ht]; rfl⟩
    · simp only [hdot, if_false]
      exact ⟨ds, hts, hd'⟩

end

theorem asksOperand_of_isNumeral {k : Kind} (h : isNumeral k = true) : k.asksOperand = false := by
  cases k <;> first | rfl | cases h

theorem eq_invalidNumber_of_read {cs : List Char} {e : Error} (h : Decimal.read cs = .error e) :
    e = .invalidNumber (String.ofList cs) := by
  unfold Decimal.read at h
  split at h
  · cases h
  · exact (Except.error.inj h).symm

/-! ## Outlooks of atoms -/

/-- A letter comes first, or nothing. -/
abbrev LetterFirst (us : List Token) : Prop :=
  Stops (decide <| · ≠ .letter) us

theorem LetterFirst.stops {p : Kind → Bool} {us : List Token} (h : LetterFirst us)
    (hp : p .letter = false) : Stops p us := by
  refine h.mono fun k hk => decide_eq_true ?_
  rintro rfl
  rw [hp] at hk
  cases hk

theorem stops_letter_of_closing {us : List Token} (h : Closing us) :
    Stops (decide <| · = .letter) us := by
  refine h.mono fun k hk => ?_
  rw [of_decide_eq_true hk]
  rfl

theorem Cursor.at?_of_closing {c : Cursor} (h : Closing c.rest) : c.at? .letter = false := by
  cases hc : c.rest with
  | nil => rw [at?, hc]
  | cons t ts =>
    rw [hc] at h
    rw [at?, hc]
    exact stops_cons_iff.1 (stops_letter_of_closing h)

theorem Cursor.at?_followedBy {c : Cursor} {k : Kind} (hne : c.rest ≠ []) (us : List Token) :
    (c.followedBy us).at? k = c.at? k := by
  obtain ⟨t, ts, hc⟩ := List.exists_cons_of_ne_nil hne
  rw [at?, at?, followedBy_of_cons hc, hc]

theorem outlook_name {c : Cursor} (hc : c.at? .letter = true) :
    Outlook c.rest fun us => (name (c.followedBy us)).map Consumed.pair := by
  by_cases hone : (runText .letter c.rest).length = 1
  · obtain ⟨n, hn⟩ := List.length_eq_one_iff.1 hone
    obtain ⟨ds, hds, hd, htext⟩ := exists_run .letter c.rest
    have hne : ds ≠ [] := by
      rintro rfl
      rw [htext] at hn
      cases hn
    have hd' : ∀ t ∈ ds, t.kind.asksOperand = false := fun t ht => by rw [hd t ht]; rfl
    have hends : Ends c.rest (afterRun .letter c.rest) := ends_of_forall hds hne hd'
    refine .read (a := n) (d := c.moved (afterRun .letter c.rest)) ?_ hends ?_
    · rw [Cursor.followedBy_nil]
      exact name_pair_of_eq hn
    · intro hafter us
      obtain ⟨htext', hafter'⟩ := run_append hafter us
      have hn' : runText .letter (c.followedBy us).rest = [n] := htext'.trans hn
      have hrest : afterRun .letter (c.followedBy us).rest = afterRun .letter c.rest ++ us :=
        hafter'
      rw [name_pair_of_eq hn', hrest]
      rfl
  · -- a run of several letters remains one
    have hx : (name (c.followedBy [])).map Consumed.pair = .error
        ⟨.invalidName (String.ofList (runText .letter c.rest)),
          c.moved (afterRun .letter c.rest)⟩ := by
      rw [Cursor.followedBy_nil]
      exact name_pair_of_length_ne hone
    refine .final hx (by nofun) ?_
    intro us
    have hpos : 0 < (runText .letter c.rest).length := length_runText_pos hc
    have hle : (runText .letter c.rest).length ≤ (runText .letter (c.followedBy us).rest).length :=
      length_runText_le .letter us
    exact ⟨_, name_pair_of_length_ne (by omega)⟩

theorem outlook_number {c : Cursor} (hne : c.rest ≠ []) :
    Outlook c.rest fun us => (number (c.followedBy us)).map Consumed.pair := by
  obtain ⟨ds, hds, hd⟩ := exists_numerals c.rest
  have hd' : ∀ t ∈ ds, t.kind.asksOperand = false := fun t ht => asksOperand_of_isNumeral (hd t ht)
  cases h : Decimal.read (numberText c.rest) with
  | ok q =>
    have hne' : ds ≠ [] := by
      rintro rfl
      have hlen := length_number c.rest
      rw [← List.nil_append (afterNumber c.rest), ← hds, Nat.add_eq_right] at hlen
      rw [List.length_eq_zero_iff.1 hlen] at h
      cases h
    have hends : Ends c.rest (afterNumber c.rest) := ends_of_forall hds hne' hd'
    refine .read (a := q) (d := c.moved (afterNumber c.rest)) ?_ hends ?_
    · rw [Cursor.followedBy_nil]
      exact number_pair_of_ok h
    · intro hafter us
      obtain ⟨htext, hafter'⟩ := number_append hafter us
      have hq : Decimal.read (numberText (c.followedBy us).rest) = .ok q := by
        rw [← h, ← htext]
        rfl
      have hrest : afterNumber (c.followedBy us).rest = afterNumber c.rest ++ us := hafter'
      rw [number_pair_of_ok hq, hrest]
      rfl
  | error e =>
    have he := eq_invalidNumber_of_read h
    by_cases hafter : afterNumber c.rest = []
    · -- more digits may make it a number
      have hx : (number (c.followedBy [])).map Consumed.pair =
          .error ⟨e, c.moved (afterNumber c.rest)⟩ := by
        rw [Cursor.followedBy_nil]
        exact number_pair_of_error h
      rw [hafter] at hds
      have hne' : ds ≠ [] := by
        rintro rfl
        exact hne hds
      exact .closed hx (he ▸ .number) (ends_of_forall hds hne' hd').not_asksOperand
    · refine .of_error (e := e) (he ▸ nofun) fun us => ?_
      have htext := (number_append hafter us).1
      have he' : Decimal.read (numberText (c.followedBy us).rest) = .error e := by
        rw [← h, ← htext]
        rfl
      exact ⟨_, number_pair_of_error he'⟩

theorem outlook_scaledName {c d : Cursor} {q : Rat} (hends : Ends c.rest d.rest)
    (hne : d.rest ≠ []) : Outlook c.rest fun us => scaledName (q, d.followedBy us) := by
  by_cases hl : d.at? .letter = true
  · obtain ⟨ws, hws, -⟩ := hends
    have hname := (outlook_name hl).map ws (.inl hne) fun n => Expr.mono ⟨n, q⟩
    rw [hws]
    simpa only [scaledName, Cursor.at?_followedBy hne, if_pos hl] using hname
  · have hread : ∀ us, scaledName (q, d.followedBy us) = .ok (.const q, d.followedBy us) := by
      intro us
      exact if_neg (by rwa [Cursor.at?_followedBy hne])
    exact .of_ok hread hends

theorem outlook_atom {c : Cursor} (hne : c.rest ≠ []) :
    Outlook c.rest fun us => (atom (c.followedBy us)).map Consumed.pair := by
  by_cases hl : c.at? .letter = true
  · have hname := (outlook_name hl).map [] (.inl hne) Expr.unknown
    simpa only [List.nil_append, atom_pair, Cursor.at?_followedBy hne, if_pos hl] using hname
  · have hnum := (outlook_number hne).bind (g := scaledName) [] (.inl hne) ?_ ?_
    · simpa only [List.nil_append, atom_pair, Cursor.at?_followedBy hne, if_neg hl] using hnum
    · intro q d hd
      have hl' : ¬ d.at? .letter = true := by rw [Cursor.at?_of_closing hd]; nofun
      exact ⟨.const q, d, if_neg hl', rfl⟩
    · intro q d hends hd
      exact outlook_scaledName hends hd

theorem outlook_leaf {c : Cursor} (hne : c.rest ≠ []) :
    Outlook c.rest fun us => (leaf (c.followedBy us)).map Consumed.pair := by
  obtain ⟨t, ts, hc⟩ := List.exists_cons_of_ne_nil hne
  by_cases ht : t.kind.startsAtom = true
  · have hleaf : ∀ us, leaf (c.followedBy us) = atom (c.followedBy us) := by
      intro us
      simp only [leaf, Cursor.followedBy_of_cons hc, ht, if_true]
    simpa only [hleaf] using outlook_atom hne
  · have hleaf : ∀ us, leaf (c.followedBy us) = .error ⟨.unexpectedToken t, c.followedBy us⟩ := by
      intro us
      simp only [leaf, Cursor.followedBy_of_cons hc, ht, if_false, Bool.false_eq_true]
    have hx : ∀ us, (leaf (c.followedBy us)).map Consumed.pair =
        .error ⟨.unexpectedToken t, c.followedBy us⟩ := fun us => by rw [hleaf]; rfl
    exact .of_error (by nofun) fun us => ⟨_, hx us⟩

/-- Where nothing is left and a leaf is due, a letter is enough. -/
theorem outlook_of_nil {c : Cursor} {x : List Token → Except Fault (Expr × Cursor)}
    (hc : c.rest = [])
    (h : ∀ us, LetterFirst us → x us = (leaf (c.followedBy us)).map Consumed.pair) :
    Outlook c.rest x := by
  have hx : x [] = .error ⟨.unexpectedEnd, c⟩ := by
    rw [h [] stops_nil, Cursor.followedBy_nil]
    simp only [leaf, hc]
    rfl
  refine .awaiting (n := 0) hx rfl (hc ▸ asksOperand_nil) ?_
  intro l ps us hl hps hn hus
  obtain rfl := List.length_eq_zero_iff.1 hn
  have hrest : (c.followedBy (l :: us)).rest = l :: us := by
    rw [Cursor.followedBy, hc, List.nil_append]
  obtain ⟨hlt, hname⟩ := name_of_letter hl hrest (stops_letter_of_closing hus)
  have hat : (c.followedBy (l :: us)).at? .letter = true := (at?_cons_iff hrest).2 hl
  have hstart : l.kind.startsAtom = true := by rw [hl]; rfl
  refine ⟨.unknown l.lexeme, (c.followedBy (l :: us)).moved us, ?_, rfl⟩
  rw [List.nil_append, h _ (stops_cons_iff.2 (by rw [hl]; rfl))]
  have hleaf : leaf (c.followedBy (l :: us)) = atom (c.followedBy (l :: us)) := by
    simp only [leaf, hrest, hstart, if_true]
  rw [hleaf, atom_pair, if_pos hat, hname]
  rfl

end OneUnknown.Grammar
