import Treewalk.Alphabet.Letters
import Treewalk.Alphabet.Numerals

/- Character classes of the source text. -/

namespace Treewalk.Alphabet

/-- Membership in rising ranges; the search ends at the first range beyond `n`. -/
def within (n : Nat) : List (Nat × Nat) → Bool
  | [] => false
  | (low, high) :: rest => if n < low then false else if n ≤ high then true else within n rest

/-- Whether ranges are not empty, and each ends before the next begins. -/
def rising : List (Nat × Nat) → Bool
  | [] => true
  | [(low, high)] => low ≤ high
  | (low, high) :: (low', high') :: rest => low ≤ high && high < low' && rising ((low', high') :: rest)

theorem rising_letters : rising letters = true := by decide +kernel

theorem rising_numerals : rising numerals = true := by decide +kernel

/-- A word starts with a letter. -/
def isLetter (c : Char) : Bool := within c.toNat letters

/-- A word goes on with letters and numerals. -/
def isWordChar (c : Char) : Bool := isLetter c || within c.toNat numerals

/-- The characters between pieces that say nothing. -/
def isBlank (c : Char) : Bool := c == ' ' || c == '\t' || c == '\r' || c == '\n'

end Treewalk.Alphabet
