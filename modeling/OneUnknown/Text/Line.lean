/-
  Lines of a byte stream, and the two ways a line is cut at its blanks.

  * A character is blank when it has the White_Space property of Unicode (`isBlank`): 25 code
    points in ten ranges.
  * `trim` drops the blanks at both ends of a line and keeps those inside; `words` lists the
    maximal runs without a blank.
  * A line ends at a line feed, which is dropped together with one carriage return before it; the
    last line needs no line feed (`lines`).  Lines are cut before they are decoded, so that bytes
    which are not UTF-8 spoil their own line only.
-/
namespace OneUnknown.Text

/-! ## Ranges of code points -/

/-- The code point of `c` lies in one of the ranges, both ends included. -/
def inRanges (ranges : List (Nat × Nat)) (c : Char) : Bool :=
  ranges.any fun r => decide (r.1 ≤ c.toNat) && decide (c.toNat ≤ r.2)

theorem inRanges_eq_true_iff {ranges : List (Nat × Nat)} {c : Char} :
    inRanges ranges c = true ↔ ∃ r ∈ ranges, r.1 ≤ c.toNat ∧ c.toNat ≤ r.2 := by
  simp [inRanges]

/-! ## Blanks -/

/-- The code points with the White_Space property. -/
def blankRanges : List (Nat × Nat) :=
  [(0x09, 0x0D), (0x20, 0x20), (0x85, 0x85), (0xA0, 0xA0), (0x1680, 0x1680), (0x2000, 0x200A),
   (0x2028, 0x2029), (0x202F, 0x202F), (0x205F, 0x205F), (0x3000, 0x3000)]

/-- A blank character. -/
def isBlank (c : Char) : Bool :=
  inRanges blankRanges c

/-- A line without the blanks at its two ends. -/
def trim (cs : List Char) : List Char :=
  ((cs.dropWhile isBlank).reverse.dropWhile isBlank).reverse

theorem filter_dropWhile_isBlank (cs : List Char) :
    (cs.dropWhile isBlank).filter (fun c => !isBlank c) = cs.filter fun c => !isBlank c := by
  induction cs with
  | nil => rfl
  | cons c cs ih => by_cases h : isBlank c <;> simp [h, ih]

/-- Trimming takes nothing but blanks away. -/
theorem filter_trim (cs : List Char) :
    (trim cs).filter (fun c => !isBlank c) = cs.filter fun c => !isBlank c := by
  rw [trim, List.filter_reverse, filter_dropWhile_isBlank, List.filter_reverse,
    List.reverse_reverse, filter_dropWhile_isBlank]

/-! ## Words -/

/-- The words of `cs`, the first of which starts with the characters of `word`. -/
def wordsAfter (word : List Char) : List Char → List (List Char)
  | [] => if word.isEmpty then [] else [word]
  | c :: cs =>
    if isBlank c then
      if word.isEmpty then wordsAfter [] cs else word :: wordsAfter [] cs
    else wordsAfter (word ++ [c]) cs

/-- The maximal runs of characters without a blank, from left to right. -/
def words (cs : List Char) : List (List Char) :=
  wordsAfter [] cs

/-! ## Lines -/

/-- The byte of a line feed. -/
def lineFeed : UInt8 := 10

/-- The byte of a carriage return. -/
def carriageReturn : UInt8 := 13

/-- The bytes before a line feed, without a carriage return at their end. -/
def dropReturn (line : List UInt8) : List UInt8 :=
  if line.getLast? = some carriageReturn then line.dropLast else line

/-- The lines of `bytes`, the first of which starts with the bytes of `line`. -/
def linesAfter (line : List UInt8) : List UInt8 → List (List UInt8)
  | [] => if line.isEmpty then [] else [line.reverse]
  | b :: bytes =>
    if b = lineFeed then dropReturn line.reverse :: linesAfter [] bytes
    else linesAfter (b :: line) bytes

/-- The lines of a byte stream. -/
def lines (bytes : List UInt8) : List (List UInt8) :=
  linesAfter [] bytes

/-- The text of a line, if its bytes are UTF-8. -/
def decode? (line : List UInt8) : Option String :=
  String.fromUTF8? ⟨line.toArray⟩

end OneUnknown.Text
