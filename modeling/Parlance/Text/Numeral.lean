import Parlance.Text.Basic

/-!
Numerals as they stand in options and in step titles: natural numbers, and decimal numbers with
sign, fraction and exponent.
-/

namespace Parlance.Text

/-- The value of a text of decimal digits, read after `value`. -/
def digitsValue (value : Nat) : Text → Nat
  | [] => value
  | c :: rest => digitsValue (10 * value + (c.toNat - '0'.toNat)) rest

/-- A natural number: decimal digits, at least one, after at most one plus sign. -/
def natural? (t : Text) : Option Nat :=
  let digits := (after? "+" t).getD t
  if digits.isEmpty || !digits.all Char.isDigit then none else some (digitsValue 0 digits)

def unsigned : Text → Text
  | '+' :: rest => rest
  | '-' :: rest => rest
  | t => t

def isDigits (t : Text) : Bool := !t.isEmpty && t.all Char.isDigit

/-- Whether a text is empty or a decimal exponent: its mark, at most one sign and digits. -/
def isExponent : Text → Bool
  | [] => true
  | c :: rest => c.toLower = 'e' && isDigits (unsigned rest)

/-- Whether a text is digits with at most one point, with a digit on some side of it, and an
exponent if need be. -/
def isMagnitude (t : Text) : Bool :=
  let whole := t.takeWhile Char.isDigit
  match t.dropWhile Char.isDigit with
  | '.' :: rest =>
    -- a point alone is no number: it has a digit before or behind it
    let fraction := rest.takeWhile Char.isDigit
    !(whole.isEmpty && fraction.isEmpty) && isExponent (rest.dropWhile Char.isDigit)
  | rest => !whole.isEmpty && isExponent rest

def namedNumbers : List Text := ["inf", "infinity", "nan"]

/-- Whether a text is a decimal number: a sign if need be, then a magnitude or the name of an
infinity or of the undefined number in any case. -/
def isDecimal (t : Text) : Bool :=
  let magnitude := unsigned t
  namedNumbers.contains (lower magnitude) || isMagnitude magnitude

end Parlance.Text
