/-
  From a text to the bytes of a line, and back.

  * `Text.bytes`: the UTF-8 bytes of a text, which decode to it (`decode?_bytes`).  A byte below 128
    stands for its own character (`utf8EncodeChar_of_mem`), every other one is part of a longer
    code.
  * `lines_bytes_append`: so a line feed ends the line of a text that has none in it.
  * `exists_dropReturn_bytes`: what such a line may lose is a carriage return, which is blank.
-/
import Mathlib.Data.List.Basic
import OneUnknown.Text.Line

namespace OneUnknown.Text

/-! ## Bytes of a text -/

/-- The UTF-8 bytes of a text. -/
def bytes (text : String) : List UInt8 :=
  text.toUTF8.data.toList

theorem bytes_eq_flatMap (text : String) :
    bytes text = text.toList.flatMap String.utf8EncodeChar := by
  rw [bytes, String.toUTF8_eq_toByteArray, ← String.utf8Encode_toList, List.utf8Encode,
    List.toList_data_toByteArray]

/-- **The bytes of a text decode to it.** -/
theorem decode?_bytes (text : String) : decode? (bytes text) = some text := by
  have h : (⟨(bytes text).toArray⟩ : ByteArray) = text.toByteArray := rfl
  rw [decode?, h, String.fromUTF8?, dif_pos text.isValidUTF8]
  rfl

theorem le_of_mem_utf8EncodeChar {b : UInt8} {c : Char} (hc : ¬ c.val.toNat ≤ 127)
    (h : b ∈ String.utf8EncodeChar c) : 128 ≤ b.toNat := by
  simp only [String.utf8EncodeChar, if_neg hc] at h
  split_ifs at h <;> simp only [List.mem_cons, List.not_mem_nil, or_false] at h
  · rcases h with rfl | rfl <;> rw [UInt8.toNat_ofNat'] <;> omega
  · rcases h with rfl | rfl | rfl <;> rw [UInt8.toNat_ofNat'] <;> omega
  · rcases h with rfl | rfl | rfl | rfl <;> rw [UInt8.toNat_ofNat'] <;> omega

/-- A byte below 128 stands for its own character. -/
theorem utf8EncodeChar_of_mem {b : UInt8} {c : Char} (hb : b.toNat < 128)
    (h : b ∈ String.utf8EncodeChar c) : c.toNat = b.toNat ∧ String.utf8EncodeChar c = [b] := by
  by_cases hc : c.val.toNat ≤ 127
  · have henc : String.utf8EncodeChar c = [UInt8.ofNat c.val.toNat] := by
      simp only [String.utf8EncodeChar, if_pos hc]
    rw [henc, List.mem_singleton] at h
    refine ⟨?_, henc.trans (by rw [h])⟩
    rw [h, UInt8.toNat_ofNat', Nat.mod_eq_of_lt (Nat.lt_of_le_of_lt hc (by decide))]
    rfl
  · exact absurd (le_of_mem_utf8EncodeChar hc h) (Nat.not_le.2 hb)

theorem lineFeed_not_mem_bytes {text : String} (h : '\n' ∉ text.toList) :
    lineFeed ∉ bytes text := by
  rw [bytes_eq_flatMap, List.mem_flatMap]
  rintro ⟨c, hc, hb⟩
  obtain rfl : c = '\n' := Char.toNat_inj.1 (utf8EncodeChar_of_mem (by decide) hb).1
  exact h hc

theorem bytes_ne_nil {text : String} (h : text.toList ≠ []) : bytes text ≠ [] := by
  obtain ⟨c, cs, htext⟩ := List.exists_cons_of_ne_nil h
  rw [bytes_eq_flatMap, htext, List.flatMap_cons]
  exact List.append_ne_nil_of_left_ne_nil String.utf8EncodeChar_ne_nil _

/-! ## Lines -/

theorem lines_nil : lines [] = [] := rfl

theorem linesAfter_append_lineFeed {line bs : List UInt8} (h : lineFeed ∉ bs) (rest : List UInt8) :
    linesAfter line (bs ++ lineFeed :: rest) =
      dropReturn (line.reverse ++ bs) :: linesAfter [] rest := by
  induction bs generalizing line with
  | nil => simp [linesAfter]
  | cons b bs ih =>
    rw [List.mem_cons, not_or] at h
    rw [List.cons_append, linesAfter, if_neg (Ne.symm h.1), ih h.2, List.reverse_cons,
      List.append_assoc]
    rfl

theorem linesAfter_of_not_mem {line bs : List UInt8} (h : lineFeed ∉ bs)
    (hne : line.reverse ++ bs ≠ []) : linesAfter line bs = [line.reverse ++ bs] := by
  induction bs generalizing line with
  | nil =>
    have hl : ¬ line.isEmpty = true := by simpa using hne
    rw [linesAfter, if_neg hl, List.append_nil]
  | cons b bs ih =>
    rw [List.mem_cons, not_or] at h
    rw [linesAfter, if_neg (Ne.symm h.1), ih h.2 (by simp), List.reverse_cons, List.append_assoc]
    rfl

/-- **A line feed ends the line of a text.** -/
theorem lines_bytes_append {text : String} (h : '\n' ∉ text.toList) (rest : List UInt8) :
    lines (bytes text ++ lineFeed :: rest) = dropReturn (bytes text) :: lines rest :=
  linesAfter_append_lineFeed (lineFeed_not_mem_bytes h) rest

/-- **The last line needs no line feed**, unless it is empty. -/
theorem lines_bytes {text : String} (h : '\n' ∉ text.toList) (hne : text.toList ≠ []) :
    lines (bytes text) = [bytes text] :=
  linesAfter_of_not_mem (lineFeed_not_mem_bytes h) (bytes_ne_nil hne)

/-! ## Carriage returns -/

/-- A blank at the end is trimmed. -/
theorem trim_append_singleton {c : Char} (h : isBlank c = true) (cs : List Char) :
    trim (cs ++ [c]) = trim cs := by
  rw [trim, trim, List.dropWhile_append]
  split
  · next hcs =>
    rw [List.isEmpty_iff.1 hcs, List.dropWhile_cons_of_pos h]
    rfl
  · rw [List.reverse_append, List.reverse_singleton, List.singleton_append,
      List.dropWhile_cons_of_pos h]

/-- **A line may lose a carriage return at its end**, which is blank. -/
theorem exists_dropReturn_bytes (text : String) :
    ∃ text' : String, dropReturn (bytes text) = bytes text' ∧
      trim text'.toList = trim text.toList := by
  by_cases h : (bytes text).getLast? = some carriageReturn
  · rw [dropReturn, if_pos h]
    rcases List.eq_nil_or_concat text.toList with ht | ⟨cs, c, ht⟩
    · rw [bytes_eq_flatMap, ht] at h
      cases h
    · rw [List.concat_eq_append] at ht
      have hb : bytes text = cs.flatMap String.utf8EncodeChar ++ String.utf8EncodeChar c := by
        rw [bytes_eq_flatMap, ht, List.flatMap_append, List.flatMap_singleton]
      rw [hb, List.getLast?_append_of_ne_nil _ String.utf8EncodeChar_ne_nil] at h
      -- the last byte is below 128, so it is the last character
      obtain ⟨hc, henc⟩ := utf8EncodeChar_of_mem (by decide) (List.mem_of_getLast? h)
      obtain rfl : c = '\r' := Char.toNat_inj.1 hc
      refine ⟨String.ofList cs, ?_, ?_⟩
      · rw [hb, henc, List.dropLast_concat, bytes_eq_flatMap, String.toList_ofList]
      · rw [ht, trim_append_singleton (by decide), String.toList_ofList]
  · exact ⟨text, by rw [dropReturn, if_neg h], rfl⟩

end OneUnknown.Text
