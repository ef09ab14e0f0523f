/-!
# White space

The characters with the Unicode property White_Space, and the two uses made of
them: trimming both ends of a text and splitting a text into words.
-/

namespace ReactiveView.Text

set_option autoImplicit false

/-- The ranges of White_Space, ascending and apart. -/
def blankRanges : List (Nat × Nat) :=
  [(0x09, 0x0D), (0x20, 0x20), (0x85, 0x85), (0xA0, 0xA0), (0x1680, 0x1680),
   (0x2000, 0x200A), (0x2028, 0x2029), (0x202F, 0x202F), (0x205F, 0x205F),
   (0x3000, 0x3000)]

theorem blankRanges_count :
    blankRanges.foldr (fun range count => range.2 + 1 - range.1 + count) 0 = 25 := by decide

def isBlank (c : Char) : Bool :=
  blankRanges.any (fun range => range.1 ≤ c.toNat && c.toNat ≤ range.2)

/-- The table adds to the white space of the core library and takes nothing away. -/
theorem isBlank_of_isWhitespace (c : Char) (white : c.isWhitespace = true) :
    isBlank c = true := by
  simp only [Char.isWhitespace, Bool.or_eq_true, decide_eq_true_eq] at white
  rcases white with ((equal | equal) | equal) | equal <;> subst equal <;> decide

def trim (characters : List Char) : List Char :=
  ((characters.dropWhile isBlank).reverse.dropWhile isBlank).reverse

/-- Cuts at every white space; `current` is the piece being read. -/
def pieces (current : List Char) : List Char → List (List Char)
  | [] => [current]
  | c :: rest => if isBlank c then current :: pieces [] rest else pieces (current ++ [c]) rest

def words (characters : List Char) : List (List Char) :=
  (pieces [] characters).filter (fun word => !word.isEmpty)

end ReactiveView.Text
