/-
  What a reading of some tokens says of reading them with more tokens behind.

  * `AsksOperand ts`: an operand is due behind the tokens.  `Ends ts rest`: none is due where `rest`
    is left over.
  * `Outlook ts x`, where `x us` is what reading `ts` gives with `us` behind: a reading that stops
    before the end is not changed by `us`; one that stops for want of an operand succeeds with a
    letter and some closing parentheses behind; any other failure is one whatever `us` is, unless
    `ts` ends where no operand is due.
  * `Outlook.bind`: two readings one after the other.
-/
import Mathlib.Data.List.Basic
import OneUnknown.Proofs.Grammar.Atoms

namespace OneUnknown

/-- The kinds behind which an operand is due. -/
def Kind.asksOperand : Kind → Bool
  | plus | minus | times | divide | lparen => true
  | equal | rparen | digit | dot | letter => false

namespace Grammar

/-! ## Where an operand is due -/

/-- An operand is due behind the tokens: there are none, or the last is an operation or an opening
    parenthesis. -/
def AsksOperand (ts : List Token) : Prop :=
  ∀ t ∈ ts.getLast?, t.kind.asksOperand = true

theorem asksOperand_nil : AsksOperand [] := by
  intro t ht
  cases ht

theorem asksOperand_singleton {t : Token} (h : t.kind.asksOperand = true) : AsksOperand [t] := by
  intro u hu
  cases hu
  exact h

theorem asksOperand_concat_iff {ts : List Token} {t : Token} :
    AsksOperand (ts ++ [t]) ↔ t.kind.asksOperand = true := by
  simp [AsksOperand]

/-- The last tokens decide, if there are any, and those before them do not matter if they ask for
    an operand. -/
theorem asksOperand_append_iff {us ts : List Token} (h : ts ≠ [] ∨ AsksOperand us) :
    AsksOperand (us ++ ts) ↔ AsksOperand ts := by
  rcases List.eq_nil_or_concat' ts with rfl | ⟨vs, t, rfl⟩
  · rw [List.append_nil]
    exact iff_of_true (h.resolve_left fun hne => hne rfl) asksOperand_nil
  · rw [← List.append_assoc, asksOperand_concat_iff, asksOperand_concat_iff]

/-- The tokens end with `rest`, before which no operand is due. -/
def Ends (ts rest : List Token) : Prop :=
  ∃ us, ts = us ++ rest ∧ ¬ AsksOperand us

theorem Ends.not_asksOperand {ts : List Token} (h : Ends ts []) : ¬ AsksOperand ts := by
  obtain ⟨us, rfl, hus⟩ := h
  rwa [List.append_nil]

theorem Ends.length_lt {ts rest : List Token} (h : Ends ts rest) : rest.length < ts.length := by
  obtain ⟨us, rfl, hus⟩ := h
  have hne : us ≠ [] := fun h0 => hus (h0 ▸ asksOperand_nil)
  have := List.length_pos_iff.2 hne
  rw [List.length_append]
  omega

theorem Ends.append {us ts rest : List Token} (h : Ends ts rest) : Ends (us ++ ts) rest := by
  obtain ⟨vs, rfl, hvs⟩ := h
  have hne : vs ≠ [] := fun h0 => hvs (h0 ▸ asksOperand_nil)
  refine ⟨us ++ vs, (List.append_assoc ..).symm, ?_⟩
  rwa [asksOperand_append_iff (.inl hne)]

/-- A token behind which no operand is due. -/
theorem ends_cons {ts rest : List Token} {t : Token} (ht : t.kind.asksOperand = false) :
    Ends (ts ++ t :: rest) rest := by
  refine ⟨ts ++ [t], by simp, ?_⟩
  rw [asksOperand_concat_iff, ht]
  exact Bool.false_ne_true

/-- Some tokens behind none of which an operand is due. -/
theorem ends_of_forall {ts us rest : List Token} (hts : ts = us ++ rest) (hne : us ≠ [])
    (h : ∀ t ∈ us, t.kind.asksOperand = false) : Ends ts rest := by
  obtain ⟨vs, t, rfl⟩ := (List.eq_nil_or_concat' us).resolve_left hne
  have ht : t.kind.asksOperand = false := h t (List.mem_append_right _ (List.mem_singleton_self t))
  rw [hts, List.append_assoc]
  exact ends_cons ht

/-! ## Outlooks -/

/-- The same place with the tokens `us` behind those still to be read. -/
def Cursor.followedBy (c : Cursor) (us : List Token) : Cursor :=
  { c with rest := c.rest ++ us }

theorem Cursor.followedBy_nil (c : Cursor) : c.followedBy [] = c := by
  rw [followedBy, List.append_nil]

theorem Cursor.followedBy_of_cons {c : Cursor} {t : Token} {ts : List Token} (h : c.rest = t :: ts)
    (us : List Token) : (c.followedBy us).rest = t :: (ts ++ us) := by
  rw [followedBy, h]
  rfl

/-- No token comes first but a closing parenthesis. -/
abbrev Closing (us : List Token) : Prop :=
  Stops (decide <| · ≠ .rparen) us

/-- Errors by which a reading may fail that came to the end of its tokens. -/
inductive AtEnd : Error → Prop
  | unmatched : AtEnd .unmatchedParenthesis
  | number {text} : AtEnd (.invalidNumber text)

section
variable {α β : Type}

/-- What is read of the tokens `ts`, where `x us` is read of them with `us` behind. -/
inductive Outlook (ts : List Token) (x : List Token → Except Fault (α × Cursor)) : Prop
  /-- read, and with tokens left over in the same way whatever is behind them -/
  | read {a : α} {d : Cursor} : x [] = .ok (a, d) → Ends ts d.rest →
      (d.rest ≠ [] → ∀ us, x us = .ok (a, d.followedBy us)) → Outlook ts x
  /-- read once there is a letter and some closing parentheses -/
  | awaiting {fault : Fault} {n : Nat} :
      x [] = .error fault → fault.error = .unexpectedEnd → AsksOperand ts →
      (∀ l ps us, l.kind = .letter → (∀ p ∈ ps, p.kind = .rparen) → ps.length = n → Closing us →
        ∃ a d, x (l :: (ps ++ us)) = .ok (a, d) ∧ d.rest = us) → Outlook ts x
  /-- refused at the end, where no operand is due -/
  | closed {fault : Fault} :
      x [] = .error fault → AtEnd fault.error → ¬ AsksOperand ts → Outlook ts x
  /-- refused whatever is behind -/
  | final {fault : Fault} : x [] = .error fault → fault.error ≠ .unexpectedEnd →
      (∀ us, ∃ fault', x us = .error fault') → Outlook ts x

section
variable {ts : List Token} {x : List Token → Except Fault (α × Cursor)}

theorem Outlook.of_ok {a : α} {d : Cursor} (h : ∀ us, x us = .ok (a, d.followedBy us))
    (hends : Ends ts d.rest) : Outlook ts x := by
  refine .read ?_ hends fun _ => h
  rw [h, Cursor.followedBy_nil]

theorem Outlook.of_error {e : Error} (he : e ≠ .unexpectedEnd)
    (h : ∀ us, ∃ place, x us = .error ⟨e, place⟩) : Outlook ts x := by
  obtain ⟨place, hx⟩ := h []
  refine .final hx he fun us => ?_
  obtain ⟨place', hx'⟩ := h us
  exact ⟨_, hx'⟩

end

/-- **One reading after the other.**  The tokens `us` in front of those that are read do not matter,
    if there are others or an operand is due behind `us`. -/
theorem Outlook.bind {ts : List Token} {x : List Token → Except Fault (α × Cursor)}
    {g : α × Cursor → Except Fault (β × Cursor)} (h : Outlook ts x) (us : List Token)
    (hus : ts ≠ [] ∨ AsksOperand us)
    (hstop : ∀ (a : α) (d : Cursor), Closing d.rest →
      ∃ b d', g (a, d) = .ok (b, d') ∧ d'.rest = d.rest)
    (hgo : ∀ (a : α) (d : Cursor), Ends ts d.rest → d.rest ≠ [] →
      Outlook (us ++ ts) fun vs => g (a, d.followedBy vs)) :
    Outlook (us ++ ts) fun vs => x vs >>= g := by
  cases h with
  | @read a d hx hends hext =>
    by_cases hd : d.rest = []
    · -- the first reading came to the end, so the second has nothing to read
      obtain ⟨b, d', hg, hd'⟩ := hstop a d (by rw [hd]; exact stops_nil)
      refine .read (a := b) (d := d') ?_ ?_ fun hne => absurd (hd'.trans hd) hne
      · rw [hx]
        exact hg
      · rw [hd']
        exact hends.append
    · have hx' : (fun vs => x vs >>= g) = fun vs => g (a, d.followedBy vs) := by
        funext vs
        rw [hext hd vs]
        rfl
      rw [hx']
      exact hgo a d hends hd
  | @awaiting fault n hx he hasks hcompl =>
    have hx' : x [] >>= g = .error fault := by rw [hx]; rfl
    refine .awaiting hx' he ((asksOperand_append_iff hus).2 hasks) ?_ (n := n)
    intro l ps vs hl hps hn hvs
    obtain ⟨a, d, hread, rfl⟩ := hcompl l ps vs hl hps hn hvs
    obtain ⟨b, d', hg, hd'⟩ := hstop a d hvs
    exact ⟨b, d', by rw [hread]; exact hg, hd'⟩
  | @closed fault hx he hasks =>
    have hx' : x [] >>= g = .error fault := by rw [hx]; rfl
    exact .closed hx' he fun h => hasks ((asksOperand_append_iff hus).1 h)
  | @final fault hx he herr =>
    have hx' : x [] >>= g = .error fault := by rw [hx]; rfl
    refine .final hx' he fun vs => ?_
    obtain ⟨fault', hf⟩ := herr vs
    exact ⟨fault', by rw [hf]; rfl⟩

/-- The value may be changed, and nothing else. -/
theorem Outlook.map {ts : List Token} {x : List Token → Except Fault (α × Cursor)}
    (h : Outlook ts x) (us : List Token) (hus : ts ≠ [] ∨ AsksOperand us) (f : α → β) :
    Outlook (us ++ ts) fun vs => x vs >>= fun p => .ok (f p.1, p.2) :=
  h.bind us hus (fun a d _ => ⟨f a, d, rfl, rfl⟩) fun a d hends _ =>
    .read (a := f a) (d := d) (by rw [Cursor.followedBy_nil]) hends.append fun _ _ => rfl

end

end Grammar

end OneUnknown
