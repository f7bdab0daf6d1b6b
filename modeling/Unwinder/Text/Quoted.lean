import Unwinder.Text.Hex
import Unwinder.Text.Unprintable

/-!
# `Unwinder.Text.Quoted` — text between quotes, safe to print

Diagnostics show paths between double quotes. The double quote and the backslash are marked by a backslash,
the common control characters have letters, and everything else that does not print is written by its code
point.
-/

namespace Unwinder.Quoted

/-- The character that marks an escape. -/
def backslash : Char := Char.ofNat 0x5c

/-- The double quote. -/
def doubleQuote : Char := Char.ofNat 0x22

/-- The characters that are written as a backslash and another character. -/
def marked : List (Nat × Char) :=
  [(0x00, '0'), (0x09, 't'), (0x0a, 'n'), (0x0d, 'r'), (0x22, doubleQuote), (0x5c, backslash)]

/-- A character as it is written between quotes. -/
def escape (c : Char) : List Char :=
  match marked.lookup c.toNat with
  | some letter => [backslash, letter]
  | none =>
      if isUnprintable c then backslash :: 'u' :: Char.ofNat 0x7b :: Hex.digits c.toNat ++ [Char.ofNat 0x7d]
      else [c]

/-- A text between quotes. -/
def quote (s : String) : String := String.ofList (doubleQuote :: (s.toList.flatMap escape ++ [doubleQuote]))

end Unwinder.Quoted
