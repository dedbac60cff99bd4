/-!
# Blank Characters

The characters that separate tokens. They are the Unicode characters with the
property `White_Space`, listed here range by range, and the four ASCII
separators from U+001C to U+001F, which do not have the property but divide
text all the same.

## Main definitions

* `isWhiteSpace`: The Unicode property `White_Space`.
* `isBlank`: White space and the ASCII separators.
* `trim`: A text without the white space at its ends.

## Theorems

* `isWhiteSpace_of_isWhitespace`: The table holds the ASCII blanks.
-/

namespace Scriptlet.Text

/-- The ranges of code points with the property `White_Space`, in order. -/
def whiteSpaceRanges : List (Nat × Nat) :=
  [(0x0009, 0x000D), (0x0020, 0x0020), (0x0085, 0x0085), (0x00A0, 0x00A0), (0x1680, 0x1680),
    (0x2000, 0x200A), (0x2028, 0x2029), (0x202F, 0x202F), (0x205F, 0x205F), (0x3000, 0x3000)]

/-- Whether a character has the Unicode property `White_Space`. -/
def isWhiteSpace (c : Char) : Bool :=
  whiteSpaceRanges.any fun (first, last) => first ≤ c.toNat && c.toNat ≤ last

/-- Whether a character separates tokens without being part of one. -/
def isBlank (c : Char) : Bool :=
  isWhiteSpace c || (0x001C ≤ c.toNat && c.toNat ≤ 0x001F)

/-- A text without the white space at its two ends. -/
def trim (text : String) : String :=
  let front := text.toList.dropWhile isWhiteSpace
  String.ofList (front.reverse.dropWhile isWhiteSpace).reverse

/-- What the ASCII test calls white space is in the table. -/
theorem isWhiteSpace_of_isWhitespace {c : Char} (h : c.isWhitespace = true) :
    isWhiteSpace c = true := by
  simp only [Char.isWhitespace, Bool.or_eq_true, decide_eq_true_eq] at h
  rcases h with ((h | h) | h) | h <;> subst h <;> decide

end Scriptlet.Text
