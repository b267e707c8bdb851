/-
  The tokens of what is written.

  * `Token.ofText`: the tokens of the characters that have one.  Scanning gives these, and fails if
    a character is refused or nothing is left (`scan_eq_ok_iff`).
  * `Expr.Writable`: every monomial is a whole number times a letter.  What is written of such an
    expression has no character that is refused (`scannable_of_mem_text`), although its constants
    may be fractions.
-/
import Mathlib.Algebra.Field.Rat
import OneUnknown.Answer

namespace OneUnknown

/-! ## Characters -/

/-- A blank has no kind. -/
theorem Kind.ofChar?_of_isBlank {c : Char} (h : Text.isBlank c = true) :
    Kind.ofChar? c = none := by
  have hne : ∀ d : Char, Text.isBlank d = false → c ≠ d := by
    rintro d hd rfl
    rw [h] at hd
    cases hd
  have hdigit : c.isDigit ≠ true := by
    have hranges : ∀ r ∈ Text.blankRanges, r.2 < 48 ∨ 57 < r.1 := by decide
    intro hd
    have hc : 48 ≤ c.toNat ∧ c.toNat ≤ 57 := by
      simpa [Char.isDigit, UInt32.le_iff_toNat_le] using hd
    obtain ⟨r, hr, h₁, h₂⟩ := Text.inRanges_eq_true_iff.1 h
    rcases hranges r hr with hr | hr <;> omega
  have hletter : Text.isLetter c ≠ true := by
    intro hl
    rw [Text.isBlank_eq_false_of_isLetter hl] at h
    cases h
  unfold Kind.ofChar?
  iterate 8 rw [if_neg (hne _ (by decide))]
  rw [if_neg hdigit, if_neg hletter]

/-- The kind of a digit. -/
theorem Kind.ofChar?_of_isDigit {c : Char} (h : c.isDigit = true) :
    Kind.ofChar? c = some .digit := by
  have hne : ∀ d : Char, d.isDigit = false → c ≠ d := by
    rintro d hd rfl
    rw [h] at hd
    cases hd
  unfold Kind.ofChar?
  iterate 8 rw [if_neg (hne _ (by decide))]
  rw [if_pos h]

namespace Token

theorem ofChar?_of_kind {c : Char} {k : Kind} (h : Kind.ofChar? c = some k) :
    ofChar? c = some ⟨k, c⟩ := by
  rw [ofChar?, h]
  rfl

theorem lexeme_of_ofChar? {c : Char} {t : Token} (h : ofChar? c = some t) : t.lexeme = c := by
  obtain ⟨k, -, rfl⟩ := Option.map_eq_some_iff.1 h
  rfl

/-! ## Texts -/

/-- The tokens of the characters that have one. -/
def ofText (cs : List Char) : List Token :=
  cs.filterMap ofChar?

@[simp] theorem ofText_nil : ofText [] = [] := rfl

@[simp] theorem ofText_append (cs ds : List Char) : ofText (cs ++ ds) = ofText cs ++ ofText ds :=
  List.filterMap_append

theorem ofText_cons {c : Char} {t : Token} (h : ofChar? c = some t) (cs : List Char) :
    ofText (c :: cs) = t :: ofText cs :=
  List.filterMap_cons_some h

theorem ofText_blank {c : Char} (h : Text.isBlank c = true) (cs : List Char) :
    ofText (c :: cs) = ofText cs :=
  List.filterMap_cons_none (by rw [ofChar?, Kind.ofChar?_of_isBlank h]; rfl)

theorem proper_of_mem_ofText {cs : List Char} {t : Token} (h : t ∈ ofText cs) : t.Proper := by
  obtain ⟨c, -, hc⟩ := List.mem_filterMap.1 h
  rw [Proper, lexeme_of_ofChar? hc]
  exact hc

/-- The character is blank or has a token. -/
def Scannable (c : Char) : Prop :=
  Text.isBlank c = true ∨ ∃ k, Kind.ofChar? c = some k

theorem mapM_ofChar_eq_ok_iff {cs : List Char} {ts : List Token} :
    (cs.filter fun c => !Text.isBlank c).mapM ofChar = .ok ts ↔
      (∀ c ∈ cs, Scannable c) ∧ ts = ofText cs := by
  induction cs generalizing ts with
  | nil => simp [pure, Except.pure, eq_comm]
  | cons c cs ih =>
    rw [List.forall_mem_cons]
    by_cases hb : Text.isBlank c = true
    · have hc : Scannable c := .inl hb
      rw [List.filter_cons_of_neg (by simp [hb]), ih, ofText_blank hb]
      simp only [hc, true_and]
    · rw [List.filter_cons_of_pos (by simp [hb]), List.mapM_cons]
      cases hk : Kind.ofChar? c with
      | none =>
        have hc : ¬ Scannable c := by simp [Scannable, hb, hk]
        have ht : ofChar c = .error (.invalidCharacter c) := by rw [ofChar, ofChar?, hk]; rfl
        rw [ht]
        simp [bind, Except.bind, hc]
      | some k =>
        have hc : Scannable c := .inr ⟨k, hk⟩
        have ht : ofChar c = .ok ⟨k, c⟩ := by rw [ofChar, ofChar?_of_kind hk]
        simp only [ht, ofText_cons (ofChar?_of_kind hk), hc, true_and, bind_eq_ok_iff, ih, pure,
          Except.pure, Except.ok.injEq]
        constructor
        · rintro ⟨_, rfl, us, ⟨hcs, rfl⟩, rfl⟩
          exact ⟨hcs, rfl⟩
        · rintro ⟨hcs, rfl⟩
          exact ⟨_, rfl, _, ⟨hcs, rfl⟩, rfl⟩

/-- **A text without refused characters is scanned**, unless it is blank. -/
theorem scan_eq_ok_iff {cs : List Char} {ts : List Token} :
    scan cs = .ok ts ↔ (∀ c ∈ cs, Scannable c) ∧ ts = ofText cs ∧ ts ≠ [] := by
  rw [scan, bind_eq_ok_iff]
  constructor
  · rintro ⟨us, hus, h⟩
    obtain ⟨hcs, rfl⟩ := mapM_ofChar_eq_ok_iff.1 hus
    split at h
    · cases h
    · next hne =>
      cases h
      exact ⟨hcs, rfl, by simpa using hne⟩
  · rintro ⟨hcs, rfl, hne⟩
    refine ⟨_, mapM_ofChar_eq_ok_iff.2 ⟨hcs, rfl⟩, ?_⟩
    rw [if_neg (by simpa using hne)]
    rfl

/-! ## Numbers -/

theorem scannable_of_mem_toDigits {n : Nat} {c : Char} (h : c ∈ Nat.toDigits 10 n) :
    Scannable c :=
  .inr ⟨.digit, Kind.ofChar?_of_isDigit (Nat.isDigit_of_mem_toDigits (by decide) (by decide) h)⟩

theorem ofText_of_isDigit {cs : List Char} (h : ∀ c ∈ cs, c.isDigit = true) :
    ofText cs = cs.map (⟨.digit, ·⟩) := by
  induction cs with
  | nil => rfl
  | cons c cs ih =>
    have hc := ofChar?_of_kind (Kind.ofChar?_of_isDigit (h c List.mem_cons_self))
    rw [ofText_cons hc, ih fun d hd => h d (List.mem_cons_of_mem c hd), List.map_cons]

end Token

/-! ## Written forms -/

/-- The token of an operation. -/
def Op.token : Op → Token
  | add => ⟨.plus, '+'⟩
  | sub => ⟨.minus, '-'⟩
  | mul => ⟨.times, '*'⟩
  | div => ⟨.divide, '/'⟩

theorem Op.ofChar?_symbol (op : Op) : Token.ofChar? op.symbol = some op.token := by
  cases op <;> rfl

namespace Expr

open Token

/-- Every monomial is a whole number times a letter. -/
def Writable (e : Expr) : Prop :=
  ∀ m, mono m ∈ e.nodes → m.coef.den = 1 ∧ Kind.ofChar? m.name = some .letter

theorem writable_const (q : Rat) : (const q).Writable := by
  simp [Writable, nodes]

theorem writable_bin_iff {op : Op} {l r : Expr} :
    (bin op l r).Writable ↔ l.Writable ∧ r.Writable := by
  simp only [Writable, nodes, List.mem_cons, reduceCtorEq, false_or, List.mem_append]
  constructor
  · intro h
    exact ⟨fun m hm => h m (.inl hm), fun m hm => h m (.inr hm)⟩
  · rintro ⟨hl, hr⟩ m (hm | hm)
    · exact hl m hm
    · exact hr m hm

theorem writable_mono_iff {m : Monomial} :
    (mono m).Writable ↔ m.coef.den = 1 ∧ Kind.ofChar? m.name = some .letter := by
  simp [Writable, nodes]

theorem ofText_bin (op : Op) (l r : Expr) : ofText (bin op l r).text =
    ofText (enclose (needsParens op .left l) l.text) ++
      op.token :: ofText (enclose (needsParens op .right r) r.text) := by
  rw [text, ofText_append, ofText_blank rfl, ofText_cons op.ofChar?_symbol, ofText_blank rfl]

theorem ofText_enclose (cs : List Char) :
    ofText (enclose true cs) = ⟨.lparen, '('⟩ :: ofText cs ++ [⟨.rparen, ')'⟩] := by
  rw [enclose, if_pos rfl, ofText_cons (t := ⟨.lparen, '('⟩) rfl, ofText_append,
    ofText_cons (t := ⟨.rparen, ')'⟩) rfl, ofText_nil, List.cons_append]

theorem enclose_false (cs : List Char) : enclose false cs = cs := rfl

/-! ## Scanning -/

theorem scannable_symbol (op : Op) : Scannable op.symbol := by
  cases op <;> exact .inr ⟨_, rfl⟩

theorem scannable_of_mem_integerText {z : Int} {c : Char} (h : c ∈ integerText z) :
    Scannable c := by
  unfold integerText at h
  split at h
  · rcases List.mem_cons.1 h with rfl | h
    · exact .inr ⟨.minus, rfl⟩
    · exact scannable_of_mem_toDigits h
  · exact scannable_of_mem_toDigits h

theorem scannable_of_mem_rationalText {q : Rat} {c : Char} (h : c ∈ rationalText q) :
    Scannable c := by
  unfold rationalText at h
  split at h
  · exact scannable_of_mem_integerText h
  · rcases List.mem_append.1 h with h | h
    · exact scannable_of_mem_integerText h
    · rcases List.mem_cons.1 h with rfl | h
      · exact .inr ⟨.divide, rfl⟩
      · exact scannable_of_mem_toDigits h

theorem scannable_of_mem_enclose {b : Bool} {cs : List Char} (h : ∀ c ∈ cs, Scannable c) :
    ∀ c ∈ enclose b cs, Scannable c := by
  intro c hc
  cases b with
  | false => exact h c hc
  | true =>
    rcases List.mem_cons.1 hc with rfl | hc
    · exact .inr ⟨.lparen, rfl⟩
    · rcases List.mem_append.1 hc with hc | hc
      · exact h c hc
      · rw [List.mem_singleton.1 hc]
        exact .inr ⟨.rparen, rfl⟩

theorem scannable_of_mem_text {e : Expr} (h : e.Writable) : ∀ c ∈ e.text, Scannable c := by
  induction e with
  | const q => exact scannable_of_mem_enclose fun c => scannable_of_mem_rationalText
  | mono m =>
    have hname : Scannable m.name := .inr ⟨.letter, (writable_mono_iff.1 h).2⟩
    intro c hc
    rw [text, Monomial.text] at hc
    split at hc
    · rwa [List.mem_singleton.1 hc]
    · rcases List.mem_append.1 hc with hc | hc
      · exact scannable_of_mem_rationalText hc
      · rwa [List.mem_singleton.1 hc]
  | bin op l r ihl ihr =>
    obtain ⟨hl, hr⟩ := writable_bin_iff.1 h
    have hblank : Scannable ' ' := .inl rfl
    intro c hc
    simp only [text, List.mem_append, List.mem_cons] at hc
    rcases hc with hc | rfl | rfl | rfl | hc
    · exact scannable_of_mem_enclose (ihl hl) c hc
    · exact hblank
    · exact scannable_symbol op
    · exact hblank
    · exact scannable_of_mem_enclose (ihr hr) c hc

end Expr

end OneUnknown
