/-!
# Blanks and trimming

A blank is a white-space character or one of the four information separators. Trimming takes
blanks off the ends of a text.
-/

namespace DocTags.Text

/-- White space: the ASCII blanks, the information separators and the wide spaces. -/
def isBlank (c : Char) : Bool :=
  let n := c.toNat
  if n < 128 then (9 ≤ n && n ≤ 13) || (28 ≤ n && n ≤ 32)
  else n == 0x85 || n == 0xA0 || n == 0x1680 || (0x2000 ≤ n && n ≤ 0x200A) || n == 0x2028
    || n == 0x2029 || n == 0x202F || n == 0x205F || n == 0x3000

theorem isBlank_of_isWhitespace {c : Char} (h : c.isWhitespace = true) : isBlank c = true := by
  simp only [Char.isWhitespace, Bool.or_eq_true, decide_eq_true_eq] at h
  rcases h with ((h | h) | h) | h <;> subst h <;> decide

/-- Takes the characters that satisfy `p` off the end. -/
def dropEndWhile (p : Char → Bool) (s : List Char) : List Char :=
  (s.reverse.dropWhile p).reverse

/-- Takes the characters that satisfy `p` off both ends. -/
def trimWhere (p : Char → Bool) (s : List Char) : List Char :=
  dropEndWhile p (s.dropWhile p)

/-- Takes the blanks off both ends. -/
def trim (s : List Char) : List Char :=
  trimWhere isBlank s

end DocTags.Text
