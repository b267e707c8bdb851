/-
  Numbers and atoms: what the reader takes is what the grammar derives.

  * `Stops p us`: no token of a kind in `p` comes first in `us`.
  * `exists_number_of_read` and `Number.read`: the text of a number is read iff the tokens at the
    front spell a number, behind which neither a digit nor a point follows.
  * `atom_sound` and `atom_complete`: the same for atoms, behind which no atom follows.
-/
import OneUnknown.Grammar.Derivation
import OneUnknown.Proofs.DecimalLiteral

namespace OneUnknown

theorem Kind.eq_of_ite_eq {p : Prop} [Decidable p] {k l : Kind} {o : Option Kind} (hkl : k ≠ l)
    (h : (if p then some k else o) = some l) : o = some l := by
  by_cases hp : p
  · rw [if_pos hp, Option.some.injEq] at h
    exact absurd h hkl
  · rwa [if_neg hp] at h

theorem Kind.isDigit_of_ofChar? {c : Char} (h : ofChar? c = some .digit) : c.isDigit = true := by
  unfold ofChar? at h
  -- the eight kinds with one character each come first
  iterate 8 replace h := Kind.eq_of_ite_eq (by decide) h
  by_cases hd : c.isDigit = true
  · exact hd
  · rw [if_neg hd] at h
    cases Kind.eq_of_ite_eq (by decide) h

theorem Token.ofChar?_of_proper {t : Token} (h : t.Proper) :
    Kind.ofChar? t.lexeme = some t.kind := by
  obtain ⟨k, hk, ht⟩ := Option.map_eq_some_iff.1 (h : (Kind.ofChar? t.lexeme).map _ = some t)
  rw [hk, ← ht]

theorem Token.isDigit_of_proper {t : Token} (h : t.Proper) (hk : t.kind = .digit) :
    t.lexeme.isDigit = true := by
  refine Kind.isDigit_of_ofChar? ?_
  rw [ofChar?_of_proper h, hk]

namespace Grammar

/-- No token of a kind in `p` comes first. -/
def Stops (p : Kind → Bool) (us : List Token) : Prop :=
  ∀ t ∈ us.head?, p t.kind = false

theorem stops_nil {p : Kind → Bool} : Stops p [] := by
  intro t ht
  cases ht

theorem stops_cons_iff {p : Kind → Bool} {t : Token} {us : List Token} :
    Stops p (t :: us) ↔ p t.kind = false := by
  simp [Stops]

theorem Stops.mono {p q : Kind → Bool} {us : List Token} (h : Stops q us)
    (hpq : ∀ k, p k = true → q k = true) : Stops p us := by
  intro t ht
  have hq := h t ht
  cases hp : p t.kind with
  | false => rfl
  | true => rw [hpq _ hp] at hq; cases hq

/-! ## Runs -/

section
variable {k : Kind} {ds us : List Token} (hd : ∀ t ∈ ds, t.kind = k)
  (hu : Stops (decide <| · = k) us)
include hd hu

theorem runText_append : runText k (ds ++ us) = ds.map (·.lexeme) := by
  have hd' : ∀ t ∈ ds, decide (t.kind = k) = true := fun t ht => decide_eq_true (hd t ht)
  rw [runText, List.takeWhile_append_of_pos hd']
  cases us with
  | nil => simp
  | cons t us =>
    rw [stops_cons_iff] at hu
    rw [List.takeWhile_cons_of_neg (by simpa using hu), List.append_nil]

theorem afterRun_append : afterRun k (ds ++ us) = us := by
  have hd' : ∀ t ∈ ds, decide (t.kind = k) = true := fun t ht => decide_eq_true (hd t ht)
  rw [afterRun, List.dropWhile_append_of_pos hd']
  cases us with
  | nil => rfl
  | cons t us =>
    rw [stops_cons_iff] at hu
    exact List.dropWhile_cons_of_neg (by simpa using hu)

end

/-- A run at the front, with what follows it. -/
theorem exists_run (k : Kind) (ts : List Token) : ∃ ds, ts = ds ++ afterRun k ts ∧
    (∀ t ∈ ds, t.kind = k) ∧ runText k ts = ds.map (·.lexeme) := by
  refine ⟨ts.takeWhile (·.kind = k), List.takeWhile_append_dropWhile.symm, ?_, rfl⟩
  intro t ht
  have hk := List.mem_takeWhile_imp ht
  simpa using hk

theorem allDigits_of_proper {ds : List Token} (hp : ∀ t ∈ ds, t.Proper)
    (hd : ∀ t ∈ ds, t.kind = .digit) : Decimal.allDigits (ds.map (·.lexeme)) = true := by
  rw [Decimal.allDigits, List.all_map, List.all_eq_true]
  intro t ht
  exact t.isDigit_of_proper (hp t ht) (hd t ht)

/-! ## Numbers -/

/-- The kinds that are part of a number. -/
def isNumeral (k : Kind) : Bool :=
  decide (k = .digit) || decide (k = .dot)

theorem startsAtom_of_isNumeral {k : Kind} (h : isNumeral k = true) : k.startsAtom = true := by
  cases k <;> first | rfl | cases h

theorem read_eq_ok_iff {cs : List Char} {q : Rat} :
    Decimal.read cs = .ok q ↔ Decimal.value? cs = some q := by
  unfold Decimal.read
  split <;> simp_all

/-- A number with neither a digit nor a point behind it is read in full. -/
theorem Number.read {ts us : List Token} {q : Rat} (h : Number Decimal.tenTo ts q)
    (hp : ∀ t ∈ ts, t.Proper) (hu : Stops isNumeral us) :
    Decimal.read (numberText (ts ++ us)) = .ok q ∧ afterNumber (ts ++ us) = us := by
  have hud : Stops (decide <| · = .digit) us := hu.mono fun k hk => by rw [isNumeral, hk]; rfl
  rw [read_eq_ok_iff]
  cases h with
  | whole hne hd =>
    have hall := allDigits_of_proper hp hd
    have hne' : ts.map (·.lexeme) ≠ [] := fun hn => hne (List.map_eq_nil_iff.1 hn)
    rw [numberText, afterNumber, runText_append hd hud, afterRun_append hd hud]
    cases us with
    | nil => exact ⟨by rw [List.append_nil, Decimal.value?_of_allDigits hall hne']; rfl, rfl⟩
    | cons u us =>
      have hdot : u.kind ≠ .dot := by
        have hu := stops_cons_iff.1 hu
        rintro hk
        rw [hk] at hu
        cases hu
      simp only [hdot, if_false, List.append_nil, and_true]
      exact Decimal.value?_of_allDigits hall hne'
  | @pointed ds p fs hd hdot hne hf =>
    have hstop : Stops (decide <| · = .digit) (p :: (fs ++ us)) := by
      rw [stops_cons_iff, hdot]; rfl
    have hds := allDigits_of_proper (fun t ht => hp t (List.mem_append_left _ ht)) hd
    have hfs := allDigits_of_proper
      (fun t ht => hp t (List.mem_append_right _ (List.mem_cons_of_mem _ ht))) hf
    rw [numberText, afterNumber, List.append_assoc, List.cons_append, runText_append hd hstop,
      afterRun_append hd hstop]
    simp only [hdot, if_true, runText_append hf hud, afterRun_append hf hud, and_true]
    rw [Decimal.value?_pointed hds, if_pos ⟨fun hn => hne (List.map_eq_nil_iff.1 hn), hfs⟩,
      List.length_map]
    rfl

/-- What is read as a number is one. -/
theorem exists_number_of_read {ts : List Token} {q : Rat} (hp : ∀ t ∈ ts, t.Proper)
    (h : Decimal.read (numberText ts) = .ok q) :
    ∃ ds, ts = ds ++ afterNumber ts ∧ Number Decimal.tenTo ds q := by
  rw [read_eq_ok_iff] at h
  obtain ⟨ds, hts, hd, htext⟩ := exists_run .digit ts
  have hp' : ∀ t ∈ ds ++ afterRun .digit ts, t.Proper := by rwa [← hts]
  have hds := allDigits_of_proper (fun t ht => hp' t (List.mem_append_left _ ht)) hd
  -- a run of digits without a point is not empty, and is a number
  have whole : ∀ {q}, Decimal.value? (ds.map (·.lexeme)) = some q →
      Number Decimal.tenTo ds q := by
    intro q h
    have hne : ds ≠ [] := by
      rintro rfl
      cases h
    rw [Decimal.value?_of_allDigits hds fun hn => hne (List.map_eq_nil_iff.1 hn)] at h
    cases h
    exact .whole hne hd
  rw [numberText, htext] at h
  rw [afterNumber]
  cases hr : afterRun .digit ts with
  | nil =>
    rw [hr] at h hts
    simp only [List.append_nil] at h
    exact ⟨ds, hts, whole h⟩
  | cons p rest =>
    rw [hr] at h hts hp'
    by_cases hdot : p.kind = .dot
    · obtain ⟨fs, hrest, hf, hftext⟩ := exists_run .digit rest
      have hfs : ∀ t ∈ fs, t.Proper := by
        intro t ht
        refine hp' t (List.mem_append_right _ (List.mem_cons_of_mem _ ?_))
        rw [hrest]
        exact List.mem_append_left _ ht
      simp only [hdot, if_true, hftext] at h ⊢
      rw [Decimal.value?_pointed hds] at h
      split_ifs at h with hne
      cases h
      rw [List.length_map]
      refine ⟨ds ++ p :: fs, ?_, .pointed hd hdot (fun hn => hne.1 (List.map_eq_nil_iff.2 hn)) hf⟩
      rw [List.append_assoc, List.cons_append, ← hrest]
      exact hts
    · simp only [hdot, if_false, List.append_nil] at h ⊢
      exact ⟨ds, hts, whole h⟩

theorem number_eq_ok_iff {c : Cursor} {r : Consumed Rat c} : number c = .ok r ↔
    Decimal.read (numberText c.rest) = .ok r.value ∧ r.next = c.moved (afterNumber c.rest) := by
  unfold number
  split
  · next e he => simp [he]
  · next q hq =>
    obtain ⟨v, d, hd⟩ := r
    simp only [hq, Except.ok.injEq, Consumed.mk.injEq, eq_comm]

theorem name_eq_ok_iff {c : Cursor} {r : Consumed Char c} : name c = .ok r ↔
    runText .letter c.rest = [r.value] ∧ r.next = c.moved (afterRun .letter c.rest) := by
  unfold name
  split
  · next n hn =>
    obtain ⟨v, d, hd⟩ := r
    simp only [hn, Except.ok.injEq, Consumed.mk.injEq, List.cons.injEq, and_true, eq_comm]
  · next hn =>
    simp only [reduceCtorEq, false_iff, not_and]
    intro hv
    exact absurd hv (hn _)

/-! ## Atoms -/

theorem at?_cons_iff {k : Kind} {c : Cursor} {t : Token} {ts : List Token} (h : c.rest = t :: ts) :
    c.at? k = true ↔ t.kind = k := by
  rw [Cursor.at?, h]
  exact decide_eq_true_iff

theorem Cursor.length_moved_lt {c : Cursor} {t : Token} {ts : List Token} (h : c.rest = t :: ts) :
    (c.moved ts).rest.length < c.rest.length := by
  rw [h]
  exact Nat.lt_succ_self _

/-- A name is one letter. -/
theorem exists_letter_of_name {c : Cursor} {r : Consumed Char c} (h : name c = .ok r) :
    ∃ t, t.kind = .letter ∧ t.lexeme = r.value ∧ c.rest = t :: r.next.rest ∧
      r.next = c.moved r.next.rest := by
  obtain ⟨hv, hn⟩ := name_eq_ok_iff.1 h
  obtain ⟨ds, hts, hd, htext⟩ := exists_run .letter c.rest
  rw [htext, List.map_eq_singleton_iff] at hv
  obtain ⟨t, rfl, ht⟩ := hv
  rw [hn]
  exact ⟨t, hd t (List.mem_singleton_self t), ht, hts, rfl⟩

theorem name_of_letter {c : Cursor} {t : Token} {us : List Token} (ht : t.kind = .letter)
    (hc : c.rest = t :: us) (hu : Stops (decide <| · = .letter) us) :
    ∃ h, name c = .ok ⟨t.lexeme, c.moved us, h⟩ := by
  have hd : ∀ u ∈ [t], u.kind = .letter := by simpa using ht
  have htext := runText_append hd hu
  have hafter := afterRun_append hd hu
  rw [List.singleton_append, ← hc] at htext hafter
  exact ⟨Cursor.length_moved_lt hc, name_eq_ok_iff.2 ⟨htext, by rw [hafter]⟩⟩

/-- **What is read as an atom is one.** -/
theorem atom_sound {c : Cursor} {r : Consumed Expr c} (hp : ∀ t ∈ c.rest, t.Proper)
    (h : atom c = .ok r) : ∃ ts, c.rest = ts ++ r.next.rest ∧
      Derives Decimal.tenTo .atom ts r.value 0 ∧ r.next = c.moved r.next.rest := by
  unfold atom at h
  split_ifs at h with hl
  · obtain ⟨n, hn, h⟩ := bind_eq_ok_iff.1 h
    cases h
    obtain ⟨t, ht, hv, hrest, hnext⟩ := exists_letter_of_name hn
    exact ⟨[t], hrest, hv ▸ .letter ht, hnext⟩
  · obtain ⟨q, hq, h⟩ := bind_eq_ok_iff.1 h
    obtain ⟨hread, hnext⟩ := number_eq_ok_iff.1 hq
    obtain ⟨ds, hds, hnum⟩ := exists_number_of_read hp hread
    have hrest : c.rest = ds ++ q.next.rest := by rw [hnext]; exact hds
    split_ifs at h with hl'
    · obtain ⟨n, hn, h⟩ := bind_eq_ok_iff.1 h
      cases h
      obtain ⟨t, ht, hv, hrest', hnext'⟩ := exists_letter_of_name hn
      refine ⟨ds ++ [t], ?_, hv ▸ .scaled hnum ht, ?_⟩
      · rw [hrest, hrest', List.append_assoc]; rfl
      · have hback := congrArg (Cursor.moved · n.next.rest) hnext
        exact hnext'.trans hback
    · cases h
      exact ⟨ds, hrest, .number hnum, by rw [hnext]; rfl⟩

theorem Number.exists_cons {scale : Nat → Nat} {ts : List Token} {q : Rat}
    (h : Number scale ts q) : ∃ t us, ts = t :: us ∧ isNumeral t.kind = true := by
  cases h with
  | @whole ds hne hd =>
    obtain ⟨t, us, rfl⟩ := List.exists_cons_of_ne_nil hne
    exact ⟨t, us, rfl, by rw [hd t List.mem_cons_self]; rfl⟩
  | @pointed ds p fs hd hdot =>
    cases ds with
    | nil => exact ⟨p, fs, rfl, by rw [hdot]; rfl⟩
    | cons t us => exact ⟨t, _, rfl, by rw [hd t List.mem_cons_self]; rfl⟩

theorem Derives.exists_cons_of_atom {scale : Nat → Nat} {ts : List Token} {e : Expr} {n : Nat}
    (h : Derives scale .atom ts e n) : ∃ t us, ts = t :: us ∧ t.kind.startsAtom = true := by
  cases h with
  | number hq =>
    obtain ⟨t, us, rfl, ht⟩ := hq.exists_cons
    exact ⟨t, us, rfl, startsAtom_of_isNumeral ht⟩
  | scaled hq _ =>
    obtain ⟨t, us, rfl, ht⟩ := hq.exists_cons
    exact ⟨t, us ++ _, rfl, startsAtom_of_isNumeral ht⟩
  | @letter t ht => exact ⟨t, [], rfl, by rw [ht]; rfl⟩

theorem atom_of_number {ts us : List Token} {q : Rat} (h : Number Decimal.tenTo ts q)
    {c : Cursor} (hp : ∀ t ∈ ts, t.Proper) (hc : c.rest = ts ++ us) (hu : Stops isNumeral us) :
    c.at? .letter = false ∧ ∃ hlt, number c = .ok ⟨q, c.moved us, hlt⟩ := by
  obtain ⟨t, rest, hts, ht⟩ := h.exists_cons
  obtain ⟨hread, hafter⟩ := h.read hp hu
  rw [← hc] at hread hafter
  have hrest : c.rest = t :: (rest ++ us) := by rw [hc, hts]; rfl
  have hlt : (c.moved us).rest.length < c.rest.length := by
    rw [hrest, List.length_cons, List.length_append]
    exact Nat.lt_succ_of_le (Nat.le_add_left _ _)
  refine ⟨?_, hlt, number_eq_ok_iff.2 ⟨hread, by rw [hafter]⟩⟩
  rw [Bool.eq_false_iff, ne_eq, at?_cons_iff hrest]
  rintro hk
  rw [hk] at ht
  cases ht

/-- **An atom with no atom behind it is read in full.** -/
theorem atom_complete {ts us : List Token} {e : Expr} {n : Nat}
    (h : Derives Decimal.tenTo .atom ts e n) {c : Cursor} (hp : ∀ t ∈ ts, t.Proper)
    (hc : c.rest = ts ++ us) (hu : Stops Kind.startsAtom us) :
    n = 0 ∧ ∃ hlt, atom c = .ok ⟨e, c.moved us, hlt⟩ := by
  have hletter : Stops (decide <| · = .letter) us := hu.mono fun k hk => by
    rw [of_decide_eq_true hk]; rfl
  have hnumeral : Stops isNumeral us := hu.mono fun _ => startsAtom_of_isNumeral
  cases h with
  | number hq =>
    obtain ⟨hl, hlt, hn⟩ := atom_of_number hq hp hc hnumeral
    have hl' : (c.moved us).at? .letter = false := by
      cases us with
      | nil => rfl
      | cons u us => exact stops_cons_iff.1 hletter
    refine ⟨rfl, hlt, ?_⟩
    rw [atom, hl, if_neg Bool.false_ne_true]
    refine bind_eq_ok_iff.2 ⟨_, hn, ?_⟩
    rw [hl', if_neg Bool.false_ne_true]
    rfl
  | @scaled ds q t hq ht =>
    rw [List.append_assoc] at hc
    have hstop : Stops isNumeral ([t] ++ us) := by
      rw [List.singleton_append, stops_cons_iff, ht]; rfl
    have hpq : ∀ u ∈ ds, u.Proper := fun u hu => hp u (List.mem_append_left _ hu)
    obtain ⟨hl, hlt, hn⟩ := atom_of_number hq hpq hc hstop
    obtain ⟨hlt', hname⟩ := name_of_letter (c := c.moved ([t] ++ us)) ht rfl hletter
    have hl' : (c.moved ([t] ++ us)).at? .letter = true := (at?_cons_iff rfl).2 ht
    refine ⟨rfl, Nat.lt_trans hlt' hlt, ?_⟩
    rw [atom, hl, if_neg Bool.false_ne_true]
    refine bind_eq_ok_iff.2 ⟨_, hn, ?_⟩
    rw [if_pos hl']
    exact bind_eq_ok_iff.2 ⟨_, hname, rfl⟩
  | @letter t ht =>
    obtain ⟨hlt, hname⟩ := name_of_letter ht hc hletter
    have hl : c.at? .letter = true := (at?_cons_iff hc).2 ht
    refine ⟨rfl, hlt, ?_⟩
    rw [atom, if_pos hl]
    exact bind_eq_ok_iff.2 ⟨_, hname, rfl⟩

end Grammar

end OneUnknown
